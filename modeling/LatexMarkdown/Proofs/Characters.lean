import LatexMarkdown.Text.Blank

/-!
# Classes of characters

Letters and digits are known by their codes, and no blank is among them. What
may stand between a command and its arguments is blank.
-/

namespace LatexMarkdown.Text

variable {c : Char}

theorem isUpper_iff_toNat : c.isUpper = true ↔ 65 ≤ c.toNat ∧ c.toNat ≤ 90 :=
  decide_eq_true_iff

theorem isLower_iff_toNat : c.isLower = true ↔ 97 ≤ c.toNat ∧ c.toNat ≤ 122 := by
  have ranges : c.isLower = (decide (97 ≤ c.toNat) && decide (c.toNat ≤ 122)) := rfl
  rw [ranges, Bool.and_eq_true, decide_eq_true_eq, decide_eq_true_eq]

/-- Letters are told by their codes. -/
theorem isAlpha_iff_toNat :
    c.isAlpha = true ↔ (65 ≤ c.toNat ∧ c.toNat ≤ 90) ∨ (97 ≤ c.toNat ∧ c.toNat ≤ 122) := by
  have cases : c.isAlpha = (c.isUpper || c.isLower) := rfl
  rw [cases, Bool.or_eq_true, isUpper_iff_toNat, isLower_iff_toNat]

/-- Letters are ASCII. -/
theorem toNat_lt_of_isAlpha (letter : c.isAlpha = true) : c.toNat < 128 := by
  rw [isAlpha_iff_toNat] at letter
  omega

/-- What is in lower case is a small letter, or it is what it was before and no capital. -/
theorem isLower_toLower_or (c : Char) :
    c.toLower.isLower = true ∨ (c.toLower = c ∧ c.isUpper = false) := by
  by_cases capital : c.isUpper = true
  · left
    have codes := isUpper_iff_toNat.mp capital
    have lowered : c.toLower = _ := dif_pos codes
    have moved : (c.val + ('a'.val - 'A'.val)).toNat = c.toNat + 32 := by
      simp [UInt32.toNat_add]
      omega
    rw [isLower_iff_toNat, lowered, Char.toNat, moved]
    omega
  · right
    have codes := mt isUpper_iff_toNat.mpr capital
    exact ⟨dif_neg codes, Bool.eq_false_iff.mpr capital⟩

/-! ## Blanks -/

/-- The signs of ASCII behind the space are not blank. -/
theorem isBlank_of_printable (printable : 32 < c.toNat) (ascii : c.toNat < 128) :
    isBlank c = false := by
  have space : c ≠ ' ' := by
    rintro rfl
    exact absurd printable (by decide)
  simp only [isBlank, Bool.or_eq_false_iff, Bool.and_eq_false_iff, decide_eq_false_iff_not, space,
    not_false_eq_true, and_true]
  omega

/-- A letter is not blank. -/
theorem isBlank_of_isAlpha (letter : c.isAlpha = true) : isBlank c = false := by
  rw [isAlpha_iff_toNat] at letter
  exact isBlank_of_printable (by omega) (by omega)

/-- A digit is not blank. -/
theorem isBlank_of_isDigit (digit : c.isDigit = true) : isBlank c = false := by
  have codes : 48 ≤ c.toNat ∧ c.toNat ≤ 57 := Char.isDigit_iff_toNat.mp digit
  exact isBlank_of_printable (by omega) (by omega)

/-- What may stand between a command and its arguments is blank. -/
theorem isBlank_of_isGap (gap : isGap c = true) : isBlank c = true := by
  simp only [isGap, Bool.or_eq_true, decide_eq_true_eq] at gap
  rcases gap with ((rfl | rfl) | rfl) | rfl <;> decide

/-- Spaces and tabs are blank. -/
theorem isBlank_of_isSpaceOrTab (spaced : isSpaceOrTab c = true) : isBlank c = true := by
  simp only [isSpaceOrTab, Bool.or_eq_true, decide_eq_true_eq] at spaced
  rcases spaced with rfl | rfl <;> decide

/-- What is not blank may not stand between a command and its arguments. -/
theorem isGap_of_visible (visible : isBlank c = false) : isGap c = false :=
  Bool.eq_false_iff.mpr fun gap => Bool.eq_false_iff.mp visible (isBlank_of_isGap gap)

theorem isSpaceOrTab_of_visible (visible : isBlank c = false) : isSpaceOrTab c = false :=
  Bool.eq_false_iff.mpr fun spaced =>
    Bool.eq_false_iff.mp visible (isBlank_of_isSpaceOrTab spaced)

/-- Nothing but what may stand between a command and its arguments. -/
def IsGap (text : Text) : Prop :=
  ∀ c ∈ text, isGap c = true

instance (text : Text) : Decidable (IsGap text) :=
  decidableForallMem (isGap · = true) text

end LatexMarkdown.Text

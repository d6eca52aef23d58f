import LatexMarkdown.Proofs.Unescaped

/-!
# Offsets into a text

An offset counts the bytes of the UTF-8 form before a position. Only some offsets lie between
two characters; at each of them the text splits into what is before it and what is behind it.
What a reader reads there stands in the text from that offset up to another one.
-/

namespace LatexMarkdown

namespace Text

theorem utf8Length_append (first second : Text) :
    utf8Length (first ++ second) = utf8Length first + utf8Length second := by
  induction first with
  | nil => exact (Nat.zero_add _).symm
  | cons c rest inductionHypothesis =>
    simp only [List.cons_append, utf8Length, inductionHypothesis, Nat.add_assoc]

theorem utf8Length_le_append (first second : Text) :
    utf8Length first ≤ utf8Length (first ++ second) := by
  rw [utf8Length_append]
  exact Nat.le_add_right _ _

theorem utf8Length_pos {text : Text} (filled : text ≠ []) : 0 < utf8Length text := by
  obtain ⟨c, rest, rfl⟩ := List.exists_cons_of_ne_nil filled
  exact Nat.add_pos_left c.utf8Size_pos _

theorem utf8Length_lt_append (first : Text) {second : Text} (filled : second ≠ []) :
    utf8Length first < utf8Length (first ++ second) := by
  rw [utf8Length_append]
  exact Nat.lt_add_of_pos_right (utf8Length_pos filled)

/-- Whether an offset lies between two characters of a text or at one of its ends. -/
def IsBoundary (text : Text) (offset : Nat) : Prop :=
  ∃ before after, text = before ++ after ∧ utf8Length before = offset

/-- An offset lies between two characters of a text, not before another one and not past the
end. -/
def IsOffsetFrom (text : Text) (start offset : Nat) : Prop :=
  IsBoundary text offset ∧ start ≤ offset ∧ offset ≤ utf8Length text

/-- A piece stands in a text from one offset to another. -/
def StandsAt (piece text : Text) (start stop : Nat) : Prop :=
  ∃ before after, text = before ++ (piece ++ after) ∧ utf8Length before = start ∧
    stop = start + utf8Length piece

theorem suffixAt?_append (before after : Text) :
    suffixAt? (before ++ after) (utf8Length before) = some after := by
  induction before with
  | nil => cases after <;> rfl
  | cons c rest inductionHypothesis =>
    have wide := c.utf8Size_pos
    obtain ⟨offset, size⟩ := Nat.exists_eq_succ_of_ne_zero
      (Nat.ne_of_gt (Nat.add_pos_left wide (utf8Length rest)))
    have inside : offset + 1 - c.utf8Size = utf8Length rest := by omega
    rw [List.cons_append, utf8Length, size, suffixAt?, if_neg (by omega), inside,
      inductionHypothesis]

theorem suffixAt?_of_split {text before after : Text} (split : text = before ++ after) :
    suffixAt? text (utf8Length before) = some after := by
  rw [split, suffixAt?_append]

/-- The suffix at an offset is what is behind it. -/
theorem suffixAt?_eq_some_iff {text suffix : Text} {offset : Nat} :
    suffixAt? text offset = some suffix ↔
      ∃ before, text = before ++ suffix ∧ utf8Length before = offset := by
  constructor
  · intro found
    induction text generalizing offset with
    | nil =>
      cases offset with
      | zero => exact ⟨[], Option.some.inj found, rfl⟩
      | succ offset => cases found
    | cons c rest inductionHypothesis =>
      cases offset with
      | zero => exact ⟨[], Option.some.inj found, rfl⟩
      | succ offset =>
        rw [suffixAt?] at found
        split at found
        · cases found
        next wide =>
          obtain ⟨before, rfl, size⟩ := inductionHypothesis found
          refine ⟨c :: before, rfl, ?_⟩
          rw [utf8Length, size]
          omega
  · rintro ⟨before, rfl, rfl⟩
    exact suffixAt?_append before suffix

theorem isBoundary_iff {text : Text} {offset : Nat} :
    IsBoundary text offset ↔ ∃ suffix, suffixAt? text offset = some suffix := by
  simp only [suffixAt?_eq_some_iff, IsBoundary]
  exact exists_comm

instance (text : Text) (offset : Nat) : Decidable (IsBoundary text offset) :=
  decidable_of_iff ((suffixAt? text offset).isSome = true)
    (by rw [isBoundary_iff, Option.isSome_iff_exists])

theorem isOffsetFrom_append {text before rest : Text} {start : Nat} (split : text = before ++ rest)
    (behind : start ≤ utf8Length before) : IsOffsetFrom text start (utf8Length before) := by
  refine ⟨⟨before, rest, split, rfl⟩, behind, ?_⟩
  rw [split]
  exact utf8Length_le_append before rest

/-- Two fronts of one text that are equally long in bytes are the same. -/
theorem eq_of_utf8Length_eq {first second behind after : Text}
    (split : first ++ behind = second ++ after) (size : utf8Length first = utf8Length second) :
    first = second ∧ behind = after := by
  have same := suffixAt?_append first behind
  rw [split, size, suffixAt?_append] at same
  obtain rfl := Option.some.inj same
  exact ⟨List.append_cancel_right split, rfl⟩

/-- Of two fronts of one text the one with fewer bytes is a front of the other. -/
theorem prefix_of_utf8Length_le {first second text : Text} (isFront : first <+: text)
    (otherFront : second <+: text) (size : utf8Length first ≤ utf8Length second) :
    first <+: second := by
  rcases List.prefix_or_prefix_of_prefix isFront otherFront with shorter | ⟨more, rfl⟩
  · exact shorter
  · rw [utf8Length_append] at size
    cases more with
    | nil => rw [List.append_nil]
    | cons c rest =>
      have wide := c.utf8Size_pos
      rw [utf8Length] at size
      omega

end Text

namespace Scan

open Text

/-- A reader that gives what is left behind a match reads, at an offset, the match that
stands there. -/
theorem readAt_eq_some_iff {read : Text → Option (Text × Text)} (around : Text → Text)
    (reads : ∀ {text inner rest}, read text = some (inner, rest) → text = around inner ++ rest)
    {text inner : Text} {start stop : Nat} :
    readAt read text start = some (inner, stop) ↔
      ∃ before rest, text = before ++ (around inner ++ rest) ∧ utf8Length before = start ∧
        read (around inner ++ rest) = some (inner, rest) ∧
          stop = start + utf8Length (around inner) := by
  simp only [readAt, Option.bind_eq_bind, Option.bind_eq_some_iff, Option.some.injEq,
    Prod.mk.injEq, Prod.exists, suffixAt?_eq_some_iff]
  constructor
  · rintro ⟨suffix, ⟨before, rfl, size⟩, found, rest, group, rfl, rfl⟩
    obtain rfl := reads group
    refine ⟨before, rest, rfl, size, group, ?_⟩
    rw [utf8Length_append, Nat.add_sub_cancel]
  · rintro ⟨before, rest, rfl, size, group, rfl⟩
    refine ⟨_, ⟨before, rfl, size⟩, inner, rest, group, rfl, ?_⟩
    rw [utf8Length_append, Nat.add_sub_cancel]

end Scan

end LatexMarkdown

import LatexMarkdown.Proofs.Editing

/-!
# Tokens in a text

A token is read back as the index it was written for, whatever follows it. The
opening of a token overlaps no other opening: none of its proper ends starts
like it. A restoration therefore finds a token wherever one was written, and
nowhere between a written token and the text around it.
-/

namespace LatexMarkdown.Fragment

/-- The opening of a token, character by character. -/
theorem tokenOpening_eq : tokenOpening = ['@', '@', 'B', 'L', 'O', 'C', 'K'] := by
  decide

/-- The closing of a token, character by character. -/
theorem tokenClosing_eq : tokenClosing = ['@', '@'] := by
  decide

/-- A number is written with decimal digits. -/
theorem isDigit_of_mem_ofNat {number : Nat} {c : Char} (member : c ∈ Text.ofNat number) :
    c.isDigit = true :=
  Nat.isDigit_of_mem_toDigits (by omega) (by omega) member

/-- A number is written without at signs. -/
theorem not_mem_ofNat (number : Nat) : '@' ∉ Text.ofNat number :=
  fun member => absurd (isDigit_of_mem_ofNat member) (by decide)

/-- A number is written with at least one digit. -/
theorem ofNat_ne_nil (number : Nat) : Text.ofNat number ≠ [] :=
  Nat.toDigits_ne_nil

/-- The digits of a number spell that number. -/
theorem digitsValue_ofNat (number : Nat) : Text.digitsValue (Text.ofNat number) = number := by
  have spelled := @Nat.ofDigitChars_ten_toDigits number
  rw [Nat.ofDigitChars_eq_foldl] at spelled
  simp only [Nat.mul_comm 10] at spelled
  exact spelled

/-- The digits of a written index are read as that index. -/
@[simp] theorem tokenIndex?_ofNat (index : Nat) : tokenIndex? (Text.ofNat index) = some index := by
  have digits : (Text.ofNat index).all Char.isDigit = true :=
    List.all_eq_true.mpr fun _ member => isDigit_of_mem_ofNat member
  rw [tokenIndex?, if_pos digits, digitsValue_ofNat]

/-- A token starts with the opening of tokens. -/
theorem token_append (index : Nat) (rest : Text) :
    token index ++ rest = tokenOpening ++ (Text.ofNat index ++ (tokenClosing ++ rest)) := by
  simp [token]

/-- A token has characters. -/
theorem token_ne_nil (index : Nat) : token index ≠ [] := by
  rw [token, tokenOpening_eq]
  exact List.cons_ne_nil _ _

/-- A token is spelled with digits and with the characters of its opening. -/
theorem mem_token {index : Nat} {c : Char} (member : c ∈ token index) :
    c.isDigit = true ∨ c ∈ tokenOpening := by
  rw [token, List.mem_append, List.mem_append] at member
  rcases member with (opening | digit) | closing
  · exact .inr opening
  · exact .inl (isDigit_of_mem_ofNat digit)
  · rw [tokenClosing_eq] at closing
    rw [tokenOpening_eq]
    simp only [List.mem_cons, List.not_mem_nil, or_false, or_self] at closing
    simp [closing]

/-- A sign that is no digit and not in the opening is in no token. -/
theorem not_mem_token {sign : Char} (foreign : sign.isDigit = false ∧ sign ∉ tokenOpening)
    (index : Nat) : sign ∉ token index := by
  intro member
  rcases mem_token member with digit | opening
  · rw [foreign.1] at digit
    exact Bool.false_ne_true digit
  · exact foreign.2 opening

/-- Decimal digits end where the closing of a token starts. -/
theorem takeWhile_digits_closing {digits rest : Text}
    (decimal : ∀ c ∈ digits, Text.isDecimal c = true) :
    (digits ++ (tokenClosing ++ rest)).takeWhile Text.isDecimal = digits := by
  rw [List.takeWhile_append_of_pos decimal, tokenClosing_eq]
  exact (congrArg (digits ++ ·) (List.takeWhile_cons_of_neg (by decide))).trans
    (List.append_nil digits)

/-- Behind the decimal digits the closing of a token is left. -/
theorem dropWhile_digits_closing {digits rest : Text}
    (decimal : ∀ c ∈ digits, Text.isDecimal c = true) :
    (digits ++ (tokenClosing ++ rest)).dropWhile Text.isDecimal = tokenClosing ++ rest := by
  rw [List.dropWhile_append_of_pos decimal, tokenClosing_eq]
  exact List.dropWhile_cons_of_neg (by decide)

/-- A token is read exactly where a text starts with the opening, at least one
decimal digit, and the closing. -/
theorem readToken_eq_some_iff {text digits rest : Text} :
    readToken text = some (digits, rest) ↔
      digits ≠ [] ∧ (∀ c ∈ digits, Text.isDecimal c = true) ∧
        text = tokenOpening ++ (digits ++ (tokenClosing ++ rest)) := by
  constructor
  · intro read
    simp only [readToken, Option.bind_eq_bind, Option.bind_eq_some_iff] at read
    obtain ⟨after, opened, behind, closed, found⟩ := read
    split at found
    · simp at found
    next nonempty =>
      simp only [Option.some.injEq, Prod.mk.injEq] at found
      obtain ⟨rfl, rfl⟩ := found
      refine ⟨by simpa [List.isEmpty_iff] using nonempty,
        fun c member => List.mem_takeWhile_imp member, ?_⟩
      rw [Text.dropFront?_eq_some_iff.mp opened, ← Text.dropFront?_eq_some_iff.mp closed,
        List.takeWhile_append_dropWhile]
  · rintro ⟨nonempty, decimal, rfl⟩
    simp only [readToken, Text.dropFront?_append, Option.bind_eq_bind, Option.bind_some,
      takeWhile_digits_closing decimal, dropWhile_digits_closing decimal]
    rw [if_neg (by simpa [List.isEmpty_iff] using nonempty)]

/-- A written token is read back, whatever follows it. -/
@[simp] theorem readToken_token (index : Nat) (rest : Text) :
    readToken (token index ++ rest) = some (Text.ofNat index, rest) := by
  have decimal : ∀ c ∈ Text.ofNat index, Text.isDecimal c = true := fun c member => by
    rw [Text.isDecimal, isDigit_of_mem_ofNat member, Bool.true_or]
  exact readToken_eq_some_iff.mpr ⟨ofNat_ne_nil index, decimal, token_append index rest⟩

/-- No token is read where a text does not start with the opening. -/
theorem readToken_eq_none {text : Text} (absent : ¬ tokenOpening <+: text) :
    readToken text = none := by
  rw [readToken, Text.dropFront?_eq_none_iff.mpr absent]
  rfl

/-- The opening is not empty. -/
theorem tokenOpening_ne_nil : tokenOpening ≠ [] := by
  decide

/-- No proper end of the opening, unless it is empty, starts a text that starts
with the opening. -/
theorem opening_borderless {back text : Text} (ends : back <:+ tokenOpening)
    (proper : back ≠ tokenOpening) (start : back <+: tokenOpening ++ text) : back = [] := by
  have member : back ∈ tokenOpening.tails := (List.mem_tails _ _).mpr ends
  rw [tokenOpening_eq] at member start proper
  simp only [List.tails, List.mem_cons, List.not_mem_nil, or_false] at member
  rcases member with rfl | rfl | rfl | rfl | rfl | rfl | rfl | rfl
  · exact absurd rfl proper
  all_goals simp [List.cons_prefix_cons] at start ⊢

end LatexMarkdown.Fragment

namespace LatexMarkdown.FragmentStore

open Fragment

/-- A written token gives way to its fragment. -/
theorem restore_token {store : FragmentStore} {index : Nat} {fragment : Text}
    (found : store.get? index = some fragment) (rest : Text) :
    store.restore (token index ++ rest) = fragment ++ store.restore rest := by
  have replaced : store.fragmentOf (Text.ofNat index) = fragment := by
    simp [fragmentOf, found]
  refine Scan.editAhead_replace (token_ne_nil index) ?_
  simp only [readToken_token, Option.map_some, replaced]

/-- A token alone gives way to its fragment. -/
theorem restore_single {store : FragmentStore} {index : Nat} {fragment : Text}
    (found : store.get? index = some fragment) : store.restore (token index) = fragment := by
  have written := restore_token found []
  rw [List.append_nil] at written
  exact written.trans (List.append_nil fragment)

/-- A character at which no token starts stays. -/
theorem restore_keep {store : FragmentStore} {c : Char} {rest : Text}
    (absent : ¬ tokenOpening <+: c :: rest) :
    store.restore (c :: rest) = c :: store.restore rest := by
  refine Scan.editAhead_keep ?_
  simp only [readToken_eq_none absent, Option.map_none]

/-- A text without at signs stays in front of what is restored behind it. -/
theorem restore_append {store : FragmentStore} {text : Text} (unsigned : '@' ∉ text) (rest : Text) :
    store.restore (text ++ rest) = text ++ store.restore rest := by
  induction text with
  | nil => rfl
  | cons c others inductionHypothesis =>
    rw [List.mem_cons, not_or] at unsigned
    have noToken : ¬ tokenOpening <+: c :: (others ++ rest) := by
      rw [tokenOpening_eq]
      exact fun start => unsigned.1 (List.cons_prefix_cons.mp start).1
    rw [List.cons_append, restore_keep noToken, inductionHypothesis unsigned.2, List.cons_append]

end LatexMarkdown.FragmentStore

import LatexMarkdown.Proofs.CodeLines
import LatexMarkdown.Proofs.DeclaredTheorem
import LatexMarkdown.Proofs.TokenFree

/-!
# The tokens of a text in their order

Tokens are read from left to right. No token reaches over a character that is in none, so a
text that such characters part has the tokens of its parts, one part after the other.
-/

namespace LatexMarkdown

namespace Fragment

/-! ## Tokens as they are spelled -/

/-- The digits of the tokens in a text, from left to right, passing over the next `covered`
characters. -/
def spelledFrom : (covered : Nat) → Text → List Text
  | _, [] => []
  | covered + 1, _ :: rest => spelledFrom covered rest
  | 0, c :: rest =>
    match readToken (c :: rest) with
    | some (digits, after) => digits :: spelledFrom ((c :: rest).length - after.length - 1) rest
    | none => spelledFrom 0 rest

/-- The sequence of the tokens in a text, each by its digits. -/
def spelled (text : Text) : List Text :=
  spelledFrom 0 text

/-- The indices of the tokens are those that their digits spell. -/
theorem tokensFrom_eq (covered : Nat) (text : Text) :
    tokensFrom covered text = (spelledFrom covered text).map tokenIndex? := by
  induction text generalizing covered with
  | nil => cases covered <;> rfl
  | cons c rest inductionHypothesis =>
    cases covered with
    | succ covered => exact inductionHypothesis covered
    | zero =>
      rw [tokensFrom, spelledFrom]
      cases readToken (c :: rest) with
      | none => exact inductionHypothesis 0
      | some token => exact congrArg (tokenIndex? token.1 :: ·) (inductionHypothesis _)

theorem tokens_eq (text : Text) : tokens text = (spelled text).map tokenIndex? :=
  tokensFrom_eq 0 text

/-- A text without tokens spells none. -/
theorem spelled_of_tokenFree {text : Text} (free : TokenFree text) : spelled text = [] := by
  rw [spelled]
  induction text with
  | nil => rfl
  | cons c rest inductionHypothesis =>
    have unread : readToken (c :: rest) = none := by
      cases read : readToken (c :: rest) with
      | none => rfl
      | some token =>
        obtain ⟨nonempty, decimal, split⟩ := readToken_eq_some_iff.mp read
        refine absurd ?_ (free token.1 nonempty decimal)
        rw [split]
        exact ⟨[], token.2, by simp⟩
    rw [spelledFrom, unread]
    exact inductionHypothesis (free.of_infix (List.suffix_cons c rest).isInfix)

section Parts

variable {before after : Text} {c : Char}

/-- A token is read in front of a separating character just as at the end of the text. -/
theorem readToken_append_cons (separates : Separates c) :
    readToken (before ++ c :: after) =
      (readToken before).map fun (digits, rest) => (digits, rest ++ c :: after) := by
  cases read : readToken before with
  | some token =>
    obtain ⟨nonempty, decimal, rfl⟩ := readToken_eq_some_iff.mp read
    refine readToken_eq_some_iff.mpr ⟨nonempty, decimal, ?_⟩
    simp
  | none =>
    cases whole : readToken (before ++ c :: after) with
    | none => rfl
    | some token =>
      obtain ⟨nonempty, decimal, split⟩ := readToken_eq_some_iff.mp whole
      have inside : tokenOpening ++ (token.1 ++ tokenClosing) <+: before :=
        Text.prefix_of_prefix_append_cons (separates.not_mem decimal) ⟨token.2, by rw [split]; simp⟩
      obtain ⟨rest, rfl⟩ := inside
      have found : readToken (tokenOpening ++ (token.1 ++ tokenClosing) ++ rest) =
          some (token.1, rest) :=
        readToken_eq_some_iff.mpr ⟨nonempty, decimal, by simp⟩
      rw [found] at read
      cases read

theorem spelledFrom_append_cons (separates : Separates c) {covered : Nat}
    (inside : covered ≤ before.length) :
    spelledFrom covered (before ++ c :: after) = spelledFrom covered before ++ spelled after := by
  induction before generalizing covered with
  | nil =>
    obtain rfl := Nat.le_zero.mp inside
    have unread : readToken ([] ++ c :: after) = none := readToken_append_cons separates
    rw [List.nil_append] at unread ⊢
    simp only [spelledFrom, unread, List.nil_append, spelled]
  | cons d rest inductionHypothesis =>
    cases covered with
    | succ covered => exact inductionHypothesis (Nat.le_of_succ_le_succ inside)
    | zero =>
      have same : readToken (d :: (rest ++ c :: after)) =
          (readToken (d :: rest)).map fun (digits, behind) => (digits, behind ++ c :: after) := by
        rw [← List.cons_append]
        exact readToken_append_cons separates
      rw [List.cons_append, spelledFrom, spelledFrom, same]
      cases read : readToken (d :: rest) with
      | none => exact inductionHypothesis (Nat.zero_le _)
      | some token =>
        obtain ⟨digits, behind⟩ := token
        have width : (d :: (rest ++ c :: after)).length - (behind ++ c :: after).length - 1 =
            (d :: rest).length - behind.length - 1 := by
          simp only [List.length_cons, List.length_append]
          omega
        have inside : (d :: rest).length - behind.length - 1 ≤ rest.length := by
          rw [List.length_cons]
          omega
        simp only [Option.map_some, width]
        exact congrArg (digits :: ·) (inductionHypothesis inside)

/-- A separating character parts the tokens of a text. -/
theorem spelled_append_cons (separates : Separates c) (before after : Text) :
    spelled (before ++ c :: after) = spelled before ++ spelled after :=
  spelledFrom_append_cons separates (Nat.zero_le _)

theorem spelled_cons (separates : Separates c) (after : Text) :
    spelled (c :: after) = spelled after :=
  spelled_append_cons separates [] after

/-- Separating characters in front spell no token. -/
theorem spelled_append_left (separating : Separating before) (after : Text) :
    spelled (before ++ after) = spelled after := by
  induction before with
  | nil => rfl
  | cons d others inductionHypothesis =>
    obtain ⟨here, later⟩ := List.forall_mem_cons.mp separating
    rw [List.cons_append, spelled_cons here, inductionHypothesis later]

/-- Separating characters behind spell no token. -/
theorem spelled_append_right (before : Text) (separating : Separating after) :
    spelled (before ++ after) = spelled before := by
  cases after with
  | nil => rw [List.append_nil]
  | cons d others =>
    obtain ⟨here, later⟩ := List.forall_mem_cons.mp separating
    have nothing : spelled others = [] := by
      rw [← List.append_nil others, spelled_append_left later]
      rfl
    rw [spelled_append_cons here, nothing, List.append_nil]

/-- Trimming keeps the tokens. -/
@[simp] theorem spelled_trimStart (text : Text) : spelled (Text.trimStart text) = spelled text := by
  have blanks : Separating (text.takeWhile Text.isBlank) :=
    fun c member => separates_of_isBlank (List.mem_takeWhile_imp member)
  rw [← spelled_append_left blanks, Text.trimStart, List.takeWhile_append_dropWhile]

@[simp] theorem spelled_trimEnd (text : Text) : spelled (Text.trimEnd text) = spelled text := by
  have blanks : Separating (text.rtakeWhile Text.isBlank) :=
    fun c member => separates_of_isBlank (List.mem_rtakeWhile_imp member)
  rw [← spelled_append_right _ blanks, Text.trimEnd, Text.dropTrailing_eq_rdropWhile,
    List.rdropWhile_append_rtakeWhile]

@[simp] theorem spelled_trim (text : Text) : spelled (Text.trim text) = spelled text := by
  rw [Text.trim, spelled_trimEnd, spelled_trimStart]

/-- The tokens of a text are those of its lines. -/
theorem flatten_spelled_lines (text : Text) :
    ((Text.lines text).map spelled).flatten = spelled text := by
  induction text using Text.line_induction with
  | single line alone =>
    by_cases empty : line = []
    · rw [empty]
      rfl
    · rw [Block.lines_of_single alone empty, List.map_singleton, List.flatten_singleton]
  | line line rest alone inductionHypothesis =>
    have kept : spelled (Text.withoutBreak (line ++ ['\n'])) = spelled line := by
      rw [Text.withoutBreak, List.getLast?_concat, if_pos rfl, List.dropLast_concat]
      split
      next returned =>
        obtain ⟨front, rfl⟩ := List.getLast?_eq_some_iff.mp returned
        rw [List.dropLast_concat, spelled_append_right front (by decide)]
      · rfl
    rw [Text.lines, Text.linesWithBreaks_line alone, List.map_cons, List.map_cons,
      List.flatten_cons, ← Text.lines, inductionHypothesis, kept,
      spelled_append_cons (by decide)]

/-- Lines that are joined keep their tokens. -/
theorem spelled_joinWith (lines : List Text) :
    spelled (Text.joinWith ['\n'] lines) = (lines.map spelled).flatten := by
  induction lines with
  | nil => rfl
  | cons first others inductionHypothesis =>
    cases others with
    | nil => exact (List.append_nil _).symm
    | cons second others =>
      rw [Text.joinWith, List.append_assoc, List.singleton_append, spelled_append_cons (by decide),
        inductionHypothesis]
      rfl

end Parts

end Fragment

end LatexMarkdown

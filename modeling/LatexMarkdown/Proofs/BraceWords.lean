import LatexMarkdown.Proofs.Braces
import LatexMarkdown.Proofs.Offsets

/-!
# The words that a braced group holds

The inside of a braced group is a word of a grammar: characters, escaped characters, and groups
with such words inside. The reader of groups only counts how deep it is; that it reads the
words of the grammar and no others is what makes the end of a group a matter of the group alone.
-/

namespace LatexMarkdown.Scan

open Text

/-- The words in which braces balance; an escaped character is no brace. -/
inductive BraceWord : Text → Prop
  | nil : BraceWord []
  | char {c : Char} {rest : Text} (plain : c ∉ ['\\', '{', '}']) (more : BraceWord rest) :
      BraceWord (c :: rest)
  | escape (c : Char) {rest : Text} (more : BraceWord rest) : BraceWord ('\\' :: c :: rest)
  | group {inner rest : Text} (inside : BraceWord inner) (more : BraceWord rest) :
      BraceWord ('{' :: (inner ++ '}' :: rest))

section BraceWord

variable {text inner rest : Text}

theorem braceStep_opening (depth : Nat) : braceStep depth false '{' = some (depth + 1) :=
  rfl

theorem braceStep_closing (depth : Nat) : braceStep (depth + 1) false '}' = some depth :=
  rfl

theorem braceStep_plain {c : Char} (plain : c ∉ ['\\', '{', '}']) (depth : Nat) :
    braceStep depth false c = some depth := by
  simp only [List.mem_cons, List.not_mem_nil, or_false, not_or] at plain
  rw [braceStep, if_neg Bool.false_ne_true, if_neg plain.2.1, if_neg plain.2.2]

/-- An escaped character is passed at any depth. -/
theorem braceDepth_escape (depth : Nat) (c : Char) (rest : Text) :
    braceDepth depth false ('\\' :: c :: rest) = braceDepth depth false rest := by
  rw [braceDepth, braceStep, if_neg Bool.false_ne_true, if_neg (by decide), if_neg (by decide),
    Option.bind_some, braceDepth]
  exact congrArg (braceDepth depth · rest) (escapesNext_true c)

theorem escapesAfter_escape (c : Char) (rest : Text) :
    escapesAfter false ('\\' :: c :: rest) = escapesAfter false rest :=
  congrArg (escapesAfter · rest) (escapesNext_true c)

/-- Around a balanced text the braces of a group are counted once more and once less. -/
theorem braceDepth_group (balanced : braceDepth 0 false inner = some 0)
    (free : escapesAfter false inner = false) (depth : Nat) (rest : Text) :
    braceDepth depth false ('{' :: (inner ++ '}' :: rest)) = braceDepth depth false rest := by
  rw [braceDepth, braceStep_opening, Option.bind_some, escapesNext_of_ne (by decide),
    braceDepth_balanced balanced free, braceDepth, braceStep_closing, Option.bind_some,
    escapesNext_of_ne (by decide)]

/-- A word closes what it opens, and escapes nothing behind it. -/
theorem BraceWord.balanced (word : BraceWord text) :
    braceDepth 0 false text = some 0 ∧ escapesAfter false text = false := by
  induction word with
  | nil => exact ⟨rfl, rfl⟩
  | @char c rest plain more inductionHypothesis =>
    have backslash : c ≠ '\\' := fun same => plain (same ▸ List.mem_cons_self)
    rw [braceDepth, braceStep_plain plain, Option.bind_some, escapesAfter_cons,
      escapesNext_of_ne backslash]
    exact inductionHypothesis
  | escape c more inductionHypothesis =>
    rw [braceDepth_escape, escapesAfter_escape]
    exact inductionHypothesis
  | group inside more insideBalanced restBalanced =>
    rw [braceDepth_group insideBalanced.1 insideBalanced.2, escapesAfter_cons,
      escapesAfter_append_cons (by decide)]
    exact restBalanced

/-- A text that closes what it opens, and escapes nothing behind it, is a word. -/
theorem braceWord_of_balanced (balanced : braceDepth 0 false text = some 0)
    (free : escapesAfter false text = false) : BraceWord text := by
  induction length : text.length using Nat.strong_induction_on generalizing text with
  | _ length inductionHypothesis =>
  subst length
  cases text with
  | nil => exact .nil
  | cons c rest =>
  by_cases backslash : c = '\\'
  · subst backslash
    cases rest with
    | nil => cases free
    | cons d others =>
      have shorter : others.length < ('\\' :: d :: others).length :=
        Nat.lt_add_of_pos_right (by decide : 0 < 2)
      rw [braceDepth_escape] at balanced
      rw [escapesAfter_escape] at free
      exact .escape d (inductionHypothesis _ shorter balanced free rfl)
  by_cases opening : c = '{'
  · subst opening
    -- The group that opens here is closed somewhere, as nothing stays open at the end.
    have closes : braceDepth (0 + 1 + 0) false rest = some 0 := balanced
    obtain ⟨inner, behind, read⟩ := exists_readBracedRest closes
    obtain ⟨rfl, insideBalanced, insideFree⟩ := readBracedRest_iff.mp read
    rw [braceDepth_group insideBalanced insideFree] at balanced
    rw [escapesAfter_cons, escapesAfter_append_cons (by decide)] at free
    refine .group (inductionHypothesis inner.length ?_ insideBalanced insideFree rfl)
      (inductionHypothesis behind.length ?_ balanced free rfl)
    all_goals simp only [List.length_cons, List.length_append]; omega
  by_cases closing : c = '}'
  · subst closing
    cases balanced
  · have plain : c ∉ ['\\', '{', '}'] := by simp [backslash, opening, closing]
    rw [braceDepth, braceStep_plain plain, Option.bind_some,
      escapesNext_of_ne backslash] at balanced
    rw [escapesAfter_cons, escapesNext_of_ne backslash] at free
    exact .char plain (inductionHypothesis _ (Nat.lt_succ_self _) balanced free rfl)

theorem braceWord_iff :
    BraceWord text ↔ braceDepth 0 false text = some 0 ∧ escapesAfter false text = false :=
  ⟨BraceWord.balanced, fun balanced => braceWord_of_balanced balanced.1 balanced.2⟩

instance : DecidablePred BraceWord := fun _ =>
  decidable_of_iff _ braceWord_iff.symm

/-- A braced group is read exactly from a word in braces. -/
theorem readBraced_iff :
    readBraced text = some (inner, rest) ↔ text = '{' :: (inner ++ '}' :: rest) ∧
      BraceWord inner := by
  rw [braceWord_iff]
  cases text with
  | nil =>
    constructor
    · intro found
      cases found
    · intro found
      cases found.1
  | cons c others =>
    by_cases opening : c = '{'
    · rw [readBraced, if_pos opening, readBracedRest_iff, opening, List.cons.injEq,
        eq_self_iff_true, true_and]
    · rw [readBraced, if_neg opening]
      constructor
      · intro found
        cases found
      · intro found
        exact absurd (List.cons.inj found.1).1 opening

/-- At an offset a braced group is read exactly where a word stands in braces. -/
theorem readAt_readBraced_eq_some_iff {start stop : Nat} :
    readAt readBraced text start = some (inner, stop) ↔
      StandsAt ('{' :: (inner ++ ['}'])) text start stop ∧ BraceWord inner := by
  rw [readAt_eq_some_iff (fun inner => '{' :: (inner ++ ['}']))
    fun read => by simp [(readBraced_iff.mp read).1]]
  simp only [readBraced_iff, StandsAt, List.cons_append, List.append_assoc, List.nil_append,
    true_and]
  constructor
  · rintro ⟨before, rest, split, size, word, stop⟩
    exact ⟨⟨before, rest, split, size, stop⟩, word⟩
  · rintro ⟨⟨before, rest, split, size, stop⟩, word⟩
    exact ⟨before, rest, split, size, word, stop⟩

end BraceWord

/-- At an offset a braced group is read exactly where a word stands in braces. No two such
groups stand at one offset, and what stands behind a group does not matter to it. -/
theorem readAt_readBraced_iff (text : Text) (start : Nat) :
    (∀ inner stop, readAt readBraced text start = some (inner, stop) ↔
      StandsAt ('{' :: (inner ++ ['}'])) text start stop ∧ BraceWord inner) ∧
    (∀ inner stop other last,
      StandsAt ('{' :: (inner ++ ['}'])) text start stop → BraceWord inner →
      StandsAt ('{' :: (other ++ ['}'])) text start last → BraceWord other →
        inner = other ∧ stop = last) ∧
    ∀ front behind other inner, text = front ++ behind →
      readAt readBraced text start = some (inner, utf8Length front) →
        readAt readBraced (front ++ other) start = some (inner, utf8Length front) := by
  refine ⟨fun _ _ => readAt_readBraced_eq_some_iff,
    fun inner stop other last stands word otherStands otherWord => ?_, ?_⟩
  · have read := readAt_readBraced_eq_some_iff.mpr ⟨stands, word⟩
    have otherRead := readAt_readBraced_eq_some_iff.mpr ⟨otherStands, otherWord⟩
    exact Prod.mk.inj (Option.some.inj (read.symm.trans otherRead))
  · rintro front behind other inner rfl read
    obtain ⟨⟨before, after, split, size, stop⟩, word⟩ := readAt_readBraced_eq_some_iff.mp read
    -- The front ends where the group ends.
    rw [← List.append_assoc] at split
    obtain ⟨rfl, -⟩ := eq_of_utf8Length_eq split (by rw [stop, utf8Length_append, size])
    exact readAt_readBraced_eq_some_iff.mpr
      ⟨⟨before, other, List.append_assoc .., size, stop⟩, word⟩

/-- An escaped brace closes no group, and a stray brace behind the group does not matter. -/
theorem readAt_readBraced_escapedBrace :
    readAt readBraced "é\x7b\\\x7dß\x7dx".toList 2 = some ("\\\x7dß".toList, 8) ∧
      readAt readBraced ("é\x7b\\\x7dß\x7d".toList ++ "\x7d\\".toList) 2 =
        some ("\\\x7dß".toList, 8) := by
  have word : BraceWord "\\\x7dß".toList := .escape '}' (.char (by decide) .nil)
  have read := ((readAt_readBraced_iff "é\x7b\\\x7dß\x7dx".toList 2).1 _ 8).mpr
    ⟨⟨"é".toList, "x".toList, rfl, rfl, rfl⟩, word⟩
  exact ⟨read, (readAt_readBraced_iff _ 2).2.2 "é\x7b\\\x7dß\x7d".toList "x".toList _ _ rfl read⟩

end LatexMarkdown.Scan

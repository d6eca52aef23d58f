import LatexMarkdown.Proofs.Editing
import LatexMarkdown.Text.Layout
import Mathlib.Data.List.DropRight

/-!
# Layout of a single line

A text without a line break is one line. Bringing its blanks into normal form
changes nothing when its spaces are single and none stands at its ends.
-/

namespace LatexMarkdown.Text

/-- Dropping a run at the end is dropping it from the reversed text. -/
theorem dropTrailing_eq_rdropWhile (condition : Char → Bool) (text : Text) :
    dropTrailing condition text = text.rdropWhile condition := by
  induction text with
  | nil => rfl
  | cons c rest inductionHypothesis =>
    rw [dropTrailing, List.foldr_cons, ← dropTrailing, inductionHypothesis, List.rdropWhile,
      List.rdropWhile, List.reverse_cons, List.dropWhile_append]
    cases rest.reverse.dropWhile condition with
    | nil => by_cases holds : condition c = true <;> simp [holds]
    | cons d others => simp

/-- The end is trimmed like the start of the reversed text. -/
theorem trimEnd_eq (text : Text) : trimEnd text = (trimStart text.reverse).reverse := by
  rw [trimEnd, dropTrailing_eq_rdropWhile]
  rfl

/-- A character that does not satisfy the condition is kept with all before it. -/
theorem dropTrailing_cons_of_neg {condition : Char → Bool} {c : Char} (kept : condition c = false)
    (rest : Text) : dropTrailing condition (c :: rest) = c :: dropTrailing condition rest := by
  rw [dropTrailing, List.foldr_cons, ← dropTrailing, kept, Bool.and_false]
  rfl

/-- What stands before something that is kept is kept. -/
theorem dropTrailing_append {condition : Char → Bool} {back : Text}
    (kept : dropTrailing condition back ≠ []) (front : Text) :
    dropTrailing condition (front ++ back) = front ++ dropTrailing condition back := by
  induction front with
  | nil => rfl
  | cons c others inductionHypothesis =>
    have filled : (others ++ dropTrailing condition back).isEmpty = false := by simp [kept]
    rw [List.cons_append, dropTrailing, List.foldr_cons, ← dropTrailing, inductionHypothesis, filled]
    rfl

/-- Nothing is dropped at an end that does not satisfy the condition. -/
theorem dropTrailing_of_getLast? {condition : Char → Bool} {text : Text}
    (ending : ∀ c, text.getLast? = some c → condition c = false) :
    dropTrailing condition text = text := by
  rw [dropTrailing_eq_rdropWhile, List.rdropWhile_eq_self_iff]
  intro nonempty
  rw [ending _ (List.getLast?_eq_getLast_of_ne_nil nonempty)]
  exact Bool.false_ne_true

/-- What is left of a text whose end is trimmed is a front of it. -/
theorem trimEnd_front (text : Text) : trimEnd text <+: text := by
  rw [trimEnd, dropTrailing_eq_rdropWhile]
  exact List.rdropWhile_prefix _ _

/-- Trimming leaves a part of a text. -/
theorem trim_infix (text : Text) : trim text <:+: text :=
  (trimEnd_front _).isInfix.trans (List.dropWhile_suffix _).isInfix

/-- Trimming keeps all that is not blank. -/
theorem mem_trim {c : Char} (visible : isBlank c = false) {text : Text} (member : c ∈ text) :
    c ∈ trim text := by
  have dropped {characters : Text} (blank : ∀ d ∈ characters, isBlank d = true) :
      c ∉ characters := by
    intro inside
    rw [blank c inside] at visible
    exact Bool.noConfusion visible
  have start : c ∈ trimStart text := by
    rw [← List.takeWhile_append_dropWhile (p := isBlank) (l := text), List.mem_append] at member
    exact member.resolve_left (dropped fun d inside => List.mem_takeWhile_imp inside)
  rw [← List.rdropWhile_append_rtakeWhile (p := isBlank) (l := trimStart text),
    List.mem_append] at start
  rw [trim, trimEnd, dropTrailing_eq_rdropWhile]
  exact start.resolve_right (dropped fun d inside => List.mem_rtakeWhile_imp inside)

/-- A text that is not blank is not blank when it is trimmed. -/
theorem isBlankText_trim {text : Text} (visible : isBlankText text = false) :
    isBlankText (trim text) = false := by
  obtain ⟨c, inside, shown⟩ := List.all_eq_false.mp visible
  exact List.all_eq_false.mpr ⟨c, mem_trim (Bool.eq_false_iff.mpr shown) inside, shown⟩

/-- A trimmed end is not trimmed again. -/
@[simp] theorem trimEnd_trimEnd (text : Text) : trimEnd (trimEnd text) = trimEnd text := by
  simp only [trimEnd, dropTrailing_eq_rdropWhile, List.rdropWhile_idempotent]

/-- Nothing is trimmed at a start that is not blank. -/
theorem trimStart_of_head? {text : Text}
    (start : ∀ c, text.head? = some c → isBlank c = false) : trimStart text = text := by
  cases text with
  | nil => rfl
  | cons c rest => exact List.dropWhile_cons_of_neg (by rw [start c rfl]; exact Bool.false_ne_true)

/-- A brace is not blank. -/
theorem trimStart_brace (rest : Text) : trimStart ('{' :: rest) = '{' :: rest :=
  List.dropWhile_cons_of_neg (by decide)

/-- A trimmed text does not start with a blank. -/
theorem isBlank_of_head?_trim {text : Text} {c : Char} (head : (trim text).head? = some c) :
    isBlank c = false := by
  obtain ⟨rest, same⟩ := List.head?_eq_some_iff.mp head
  obtain ⟨dropped, whole⟩ := trimEnd_front (trimStart text)
  rw [← trim, same] at whole
  have kept : (text.dropWhile isBlank).head? = some c := by
    rw [← trimStart, ← whole]
    rfl
  have visible := List.head?_dropWhile_not isBlank text
  rw [kept] at visible
  exact visible

/-- A text with trimmed ends is not trimmed again. -/
@[simp] theorem trim_trim (text : Text) : trim (trim text) = trim text := by
  have start : trimStart (trim text) = trim text :=
    trimStart_of_head? fun _ head => isBlank_of_head?_trim head
  rw [trim, start, trim, trimEnd_trimEnd]

/-- A text without a separator is a single piece. -/
theorem splitOn_of_not_mem {separator : Char} {text : Text} (absent : separator ∉ text) :
    splitOn separator text = [text] := by
  induction text with
  | nil => rfl
  | cons c rest inductionHypothesis =>
    rw [List.mem_cons, not_or] at absent
    rw [splitOn, if_neg (Ne.symm absent.1), inductionHypothesis absent.2]
    rfl

/-- The first separator ends the first piece. -/
theorem splitOn_append_cons {separator : Char} {before : Text} (absent : separator ∉ before)
    (after : Text) :
    splitOn separator (before ++ separator :: after) = before :: splitOn separator after := by
  induction before with
  | nil => rw [List.nil_append, splitOn, if_pos rfl]
  | cons c others inductionHypothesis =>
    rw [List.mem_cons, not_or] at absent
    rw [List.cons_append, splitOn, if_neg (Ne.symm absent.1), inductionHypothesis absent.2]
    rfl

/-- A text is a single line, or a line with its break and then a text. -/
theorem line_induction {motive : Text → Prop} (single : ∀ line, '\n' ∉ line → motive line)
    (line : ∀ line rest, '\n' ∉ line → motive rest → motive (line ++ '\n' :: rest))
    (text : Text) : motive text := by
  induction size : text.length using Nat.strong_induction_on generalizing text with
  | _ size inductionHypothesis =>
  subst size
  by_cases broken : '\n' ∈ text
  · obtain ⟨first, rest, rfl, alone⟩ := List.eq_append_cons_of_mem broken
    refine line first rest alone (inductionHypothesis rest.length ?_ rest rfl)
    rw [List.length_append, List.length_cons]
    omega
  · exact single text broken

/-- A single line is changed as a whole. -/
theorem mapLines_of_single {text : Text} (single : '\n' ∉ text) (change : Text → Text) :
    mapLines change text = change text := by
  rw [mapLines, splitOn_of_not_mem single]
  rfl

/-- A single line is its only line, break and all. -/
theorem linesWithBreaks_of_single {text : Text} (single : '\n' ∉ text) (nonempty : text ≠ []) :
    linesWithBreaks text = [text] := by
  induction text with
  | nil => exact absurd rfl nonempty
  | cons c rest inductionHypothesis =>
    rw [List.mem_cons, not_or] at single
    rw [linesWithBreaks, if_neg (Ne.symm single.1)]
    cases rest with
    | nil => rfl
    | cons d others =>
      rw [inductionHypothesis single.2 (List.cons_ne_nil d others)]
      rfl

/-- A line that starts with a tag is kept. -/
theorem dropSurplusBlankLines_tag (line : Text) (others : List Text) (afterBlank : Bool) :
    dropSurplusBlankLines false afterBlank (('<' :: line) :: others) =
      ('<' :: line) :: dropSurplusBlankLines false false others := by
  have start : trimStart ('<' :: line) = '<' :: line :=
    List.dropWhile_cons_of_neg (by decide)
  have plain : isFence ('<' :: line) = false := by
    rw [isFence, start]
    rfl
  have visible : isBlankText ('<' :: line) = false := rfl
  rw [dropSurplusBlankLines, plain, visible]
  rfl

/-- Where all spaces are single there is no run of them to squeeze. -/
theorem squeezeSpaces_of_spaced {text : Text} (untabbed : '\t' ∉ text)
    (spaced : ¬ [' ', ' '] <:+: text) : squeezeSpaces text = text := by
  refine Scan.editAhead_of_silent fun suffix within nonempty => ?_
  obtain ⟨c, rest, rfl⟩ := List.exists_cons_of_ne_nil nonempty
  have short : ¬ 2 ≤ (rest.takeWhile isSpaceOrTab).length := by
    intro long
    match run : rest.takeWhile isSpaceOrTab, long with
    | first :: second :: others, _ =>
      have front : first :: second :: others <+: rest := run ▸ List.takeWhile_prefix _
      have space {d : Char} (listed : d ∈ first :: second :: others) : d = ' ' := by
        have member : d ∈ text :=
          within.subset (List.mem_cons_of_mem c (front.subset listed))
        have spaceOrTab : isSpaceOrTab d = true := List.mem_takeWhile_imp (run ▸ listed)
        simp only [isSpaceOrTab, Bool.or_eq_true, decide_eq_true_eq] at spaceOrTab
        rcases spaceOrTab with rfl | rfl
        · rfl
        · exact absurd member untabbed
      have pair : [' ', ' '] <+: rest := by
        rw [space (List.mem_cons_self ..),
          space (List.mem_cons_of_mem first (List.mem_cons_self ..))] at front
        exact (List.prefix_append [' ', ' '] others).trans front
      exact spaced
        ((pair.isInfix.trans (List.suffix_cons c rest).isInfix).trans within.isInfix)
  simp only [decide_eq_false short, Bool.and_false]
  rfl

/-- A single line whose spaces are single and stand inside it. -/
structure Tidy (text : Text) : Prop where
  single : '\n' ∉ text
  untabbed : '\t' ∉ text
  spaced : ¬ [' ', ' '] <:+: text
  start : text.head? ≠ some ' '
  ending : text.getLast? ≠ some ' '

namespace Tidy

variable {text : Text}

/-- The spaces and tabs of a tidy line are spaces. -/
theorem eq_space {c : Char} (tidy : Tidy text) (member : c ∈ text)
    (space : isSpaceOrTab c = true) : c = ' ' := by
  simp only [isSpaceOrTab, Bool.or_eq_true, decide_eq_true_eq] at space
  rcases space with rfl | rfl
  · rfl
  · exact absurd member tidy.untabbed

/-- A tidy line has no indentation. -/
theorem stripIndentation_eq (tidy : Tidy text) : stripIndentation text = text := by
  have unindented : text.dropWhile isSpaceOrTab = text := by
    cases text with
    | nil => rfl
    | cons c rest =>
      refine List.dropWhile_cons_of_neg fun space => tidy.start ?_
      rw [List.head?_cons, tidy.eq_space (List.mem_cons_self ..) space]
  rw [stripIndentation, mapLines_of_single tidy.single, withoutIndentation, unindented]
  split <;> rfl

/-- A tidy line has nothing to strip at its end. -/
theorem stripLineEnds_eq (tidy : Tidy text) : stripLineEnds text = text := by
  rw [stripLineEnds, mapLines_of_single tidy.single]
  refine dropTrailing_of_getLast? fun c last => Bool.eq_false_iff.mpr fun space => ?_
  have member : c ∈ text := List.mem_of_getLast? last
  exact tidy.ending (tidy.eq_space member space ▸ last)

/-- A tidy line has no run of spaces. -/
theorem squeezeSpaces_eq (tidy : Tidy text) : squeezeSpaces text = text :=
  squeezeSpaces_of_spaced tidy.untabbed tidy.spaced

/-- A tidy line has no run of line breaks. -/
theorem squeezeLineBreaks_eq (tidy : Tidy text) : squeezeLineBreaks text = text := by
  refine Scan.editAhead_of_silent fun suffix within nonempty => ?_
  obtain ⟨c, rest, rfl⟩ := List.exists_cons_of_ne_nil nonempty
  have different : c ≠ '\n' := by
    rintro rfl
    exact tidy.single (within.subset (List.mem_cons_self ..))
  simp [different]

/-- The blanks of a tidy line are in normal form. -/
theorem normalizeBlanks_eq (tidy : Tidy text) : normalizeBlanks text = text := by
  rw [normalizeBlanks, tidy.stripIndentation_eq, tidy.stripLineEnds_eq, tidy.squeezeSpaces_eq,
    tidy.squeezeLineBreaks_eq]

end Tidy

/-- A finished document of a single line that is not blank stays as it is. -/
theorem finishLayout_of_single {text : Text} (single : '\n' ∉ text)
    (visible : isBlankText text = false) : finishLayout text = text := by
  rw [finishLayout, visible, splitOn_of_not_mem single]
  simp [dropSurplusBlankLines, visible, joinWith]

end LatexMarkdown.Text

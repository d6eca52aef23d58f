import LatexMarkdown.Proofs.CodeLines
import LatexMarkdown.Proofs.Paragraphs
import LatexMarkdown.Proofs.SecondConversion
import Mathlib.Algebra.Group.Nat.Even

/-!
# What a conversion puts out for a code block

A document that is one code block becomes a code fence around the trimmed body. The
last pass, which drops surplus blank lines outside code fences, looks for fences in
the finished text once more. A line of the code that itself looks like a fence counts
as one there, so that the code behind it is no longer taken for code, and loses its
surplus blank lines, until the next such line.
-/

namespace LatexMarkdown

open Scan
open Code (verbatimName)

/-! ## Blank lines inside code fences -/

namespace Text

/-- Two lists of pieces, one after the other. -/
theorem joinWith_append (separator : Text) {first second : List Text} (nonempty : first ≠ [])
    (alsoNonempty : second ≠ []) :
    joinWith separator (first ++ second) =
      joinWith separator first ++ (separator ++ joinWith separator second) := by
  induction first with
  | nil => exact absurd rfl nonempty
  | cons piece others inductionHypothesis =>
    rw [List.cons_append]
    cases others with
    | nil => exact joinWith_cons separator piece alsoNonempty
    | cons next later =>
      have filled : next :: later ≠ [] := List.cons_ne_nil _ _
      rw [joinWith_cons separator piece (by simp), inductionHypothesis filled,
        joinWith_cons separator piece filled]
      simp only [List.append_assoc]

/-- A fence is not blank. -/
theorem isBlankText_of_isFence {line : Text} (fence : isFence line = true) :
    isBlankText line = false := by
  have backquote : '`' ∈ line := by
    by_contra absent
    rw [isFence_of_not_mem absent] at fence
    exact Bool.false_ne_true fence
  exact List.all_eq_false.mpr ⟨'`', backquote, by decide⟩

/-- Two blank lines in a row stand only inside a code fence. Whether the first of all
lines does is given, and every fence after it changes it. -/
def BlankRunsFenced (fenced : Bool) (lines : List Text) : Prop :=
  ∀ before first second after, lines = before ++ first :: second :: after →
    isBlankText first = true → isBlankText second = true →
      (fenced = true ↔ Even (before.countP isFence))

/-- One line more asks only for what comes directly behind it. -/
theorem blankRunsFenced_cons_iff {fenced : Bool} {line : Text} {others : List Text} :
    BlankRunsFenced fenced (line :: others) ↔
      (isBlankText line = true → ∀ next ∈ others.head?, isBlankText next = true →
        fenced = true) ∧ BlankRunsFenced (fenced ^^ isFence line) others := by
  constructor
  · intro runs
    constructor
    · intro blank next follows alsoBlank
      obtain ⟨after, rfl⟩ := List.head?_eq_some_iff.mp follows
      exact (runs [] line next after rfl blank alsoBlank).mpr (by simp)
    · intro before first second after split blank alsoBlank
      have whole := runs (line :: before) first second after (by rw [split]; rfl) blank alsoBlank
      rw [List.countP_cons] at whole
      cases fence : isFence line with
      | false => simpa [fence] using whole
      | true =>
        simp only [fence, if_true, Nat.even_add_one] at whole
        cases fenced <;> simp_all
  · rintro ⟨here, later⟩ before first second after split blank alsoBlank
    cases before with
    | nil =>
      rw [List.nil_append, List.cons.injEq] at split
      obtain ⟨rfl, rfl⟩ := split
      simpa using here blank second rfl alsoBlank
    | cons _ before =>
      rw [List.cons_append, List.cons.injEq] at split
      obtain ⟨rfl, split⟩ := split
      have further := later before first second after split blank alsoBlank
      rw [List.countP_cons]
      cases fence : isFence line with
      | false => simpa [fence] using further
      | true =>
        simp only [if_true, Nat.even_add_one]
        cases fenced <;> simp_all

/-- Without fences all blank lines stand where the first line does. -/
theorem blankRunsFenced_of_unfenced {lines : List Text}
    (unfenced : ∀ line ∈ lines, isFence line = false) : BlankRunsFenced true lines := by
  rintro before first second after rfl - -
  have none : before.countP isFence = 0 := by
    rw [List.countP_eq_zero]
    intro line listed
    rw [unfenced line (List.mem_append_left _ listed)]
    exact Bool.false_ne_true
  simp [none]

/-- No blank line is dropped exactly when two of them in a row stand only inside a
code fence. Behind a blank line the first line counts too. -/
theorem dropSurplusBlankLines_eq_self_iff (fenced afterBlank : Bool) (lines : List Text) :
    dropSurplusBlankLines fenced afterBlank lines = lines ↔
      (afterBlank = true → ∀ line ∈ lines.head?, isBlankText line = true → fenced = true) ∧
        BlankRunsFenced fenced lines := by
  induction lines generalizing fenced afterBlank with
  | nil => simp [dropSurplusBlankLines, BlankRunsFenced]
  | cons line others inductionHypothesis =>
    rw [blankRunsFenced_cons_iff, dropSurplusBlankLines]
    split
    next fence =>
      have visible := isBlankText_of_isFence fence
      simp [inductionHypothesis, fence, visible]
    next plain =>
      rw [Bool.not_eq_true] at plain
      split
      next surplus =>
        rw [Bool.and_eq_true, Bool.not_eq_true'] at surplus
        obtain ⟨rfl, blank⟩ := surplus
        split
        next behind =>
          have shorter : dropSurplusBlankLines false true others ≠ line :: others := by
            intro same
            have kept := (dropSurplusBlankLines_sublist false true others).length_le
            rw [same, List.length_cons] at kept
            omega
          simp [shorter, behind, blank]
        next apart => simp [inductionHypothesis, apart, blank, plain]
      next kept =>
        have inside : isBlankText line = true → fenced = true := by
          cases fenced <;> simp_all
        simp only [List.cons.injEq, true_and, inductionHypothesis, plain, Bool.xor_false]
        constructor
        · rintro ⟨-, later⟩
          exact ⟨by simpa using fun _ => inside, fun blank _ _ _ => inside blank, later⟩
        · rintro ⟨-, -, later⟩
          exact ⟨by simp, later⟩

/-- A first line is kept where no blank line stands before it. -/
theorem dropSurplusBlankLines_ne_nil (fenced : Bool) {lines : List Text} (nonempty : lines ≠ []) :
    dropSurplusBlankLines fenced false lines ≠ [] := by
  obtain ⟨first, others, rfl⟩ := List.exists_cons_of_ne_nil nonempty
  rw [dropSurplusBlankLines]
  simp only [Bool.false_eq_true, if_false]
  split_ifs <;> exact List.cons_ne_nil _ _

/-- A fence and the end of a text behind it are kept. -/
theorem dropSurplusBlankLines_closing (fenced afterBlank : Bool) (lines : List Text) :
    dropSurplusBlankLines fenced afterBlank (lines ++ ["```".toList, []]) =
      dropSurplusBlankLines fenced afterBlank lines ++ ["```".toList, []] := by
  induction lines generalizing fenced afterBlank with
  | nil => cases fenced <;> rfl
  | cons line others inductionHypothesis =>
    rw [List.cons_append, dropSurplusBlankLines, dropSurplusBlankLines.eq_2]
    split_ifs <;> simp only [inductionHypothesis, List.cons_append]

end Text

/-! ## A code fence -/

namespace Code

/-- Code between fences, on lines of its own. -/
def fenced (code : Text) : Text :=
  "\n```\n".toList ++ (code ++ "\n```\n".toList)

theorem fenced_eq (code : Text) :
    fenced code = "\n```\n".toList ++ (code ++ "\n```\n".toList) :=
  rfl

/-- The lines of code between fences. -/
theorem splitOn_fenced (code : Text) :
    Text.splitOn '\n' (fenced code) =
      [[], "```".toList] ++ (Text.splitOn '\n' code ++ ["```".toList, []]) := by
  have spelled : fenced code =
      [] ++ '\n' :: ("```".toList ++ '\n' :: (code ++ '\n' :: ("```".toList ++ ['\n']))) := rfl
  rw [spelled, Text.splitOn_append, Text.splitOn_append, Text.splitOn_append]
  rfl

/-- Lines between fences, joined. -/
theorem joinWith_fenced {lines : List Text} (nonempty : lines ≠ []) :
    Text.joinWith ['\n'] ([[], "```".toList] ++ (lines ++ ["```".toList, []])) =
      fenced (Text.joinWith ['\n'] lines) := by
  rw [Text.joinWith_append _ (by simp) (by simp), Text.joinWith_append _ nonempty (by simp)]
  rfl

/-- The last pass drops the blank lines of the code that are surplus when the code is
read as a document that starts inside a code fence. -/
theorem finishLayout_fenced (code : Text) :
    Text.finishLayout (fenced code) =
      fenced (Text.joinWith ['\n']
        (Text.dropSurplusBlankLines true false (Text.splitOn '\n' code))) := by
  have visible : Text.isBlankText (fenced code) = false :=
    List.all_eq_false.mpr ⟨'`', by simp [fenced_eq], by decide⟩
  have opening (lines : List Text) :
      Text.dropSurplusBlankLines false false ([[], "```".toList] ++ lines) =
        [[], "```".toList] ++ Text.dropSurplusBlankLines true false lines := rfl
  have nonempty := Text.dropSurplusBlankLines_ne_nil true (Text.splitOn_ne_nil '\n' code)
  rw [Text.finishLayout, visible, if_neg Bool.false_ne_true, splitOn_fenced, opening,
    Text.dropSurplusBlankLines_closing, joinWith_fenced nonempty]

/-- Different code makes different code between fences. -/
theorem fenced_injective : Function.Injective fenced := by
  intro first second same
  rw [fenced_eq, fenced_eq, List.append_cancel_left_eq, List.append_cancel_right_eq] at same
  exact same

/-- Code between fences is finished exactly when two blank lines in a row stand only
behind an even number of lines that look like fences. -/
theorem finishLayout_fenced_eq_iff (code : Text) :
    Text.finishLayout (fenced code) = fenced code ↔
      Text.BlankRunsFenced true (Text.splitOn '\n' code) := by
  have kept := Text.dropSurplusBlankLines_eq_self_iff true false (Text.splitOn '\n' code)
  have pieces : ∀ line ∈ Text.dropSurplusBlankLines true false (Text.splitOn '\n' code),
      '\n' ∉ line := by
    intro line listed
    exact Text.not_mem_of_mem_splitOn ((Text.dropSurplusBlankLines_sublist ..).subset listed)
  rw [finishLayout_fenced, fenced_injective.eq_iff]
  constructor
  · intro same
    have nonempty := Text.dropSurplusBlankLines_ne_nil true (Text.splitOn_ne_nil '\n' code)
    have lines := Text.splitOn_joinWith nonempty pieces
    rw [same] at lines
    exact (kept.mp lines.symm).2
  · intro runs
    rw [kept.mpr ⟨by simp, runs⟩, Text.joinWith_splitOn]

/-! ## The body of a code block -/

/-- What is left of a text without the blank lines at its start. -/
def fromVisible (text : Text) : Text :=
  (dropBlankLines (Text.linesWithBreaks text)).flatten

/-- A first line goes away if it is blank, and otherwise all stays. -/
theorem fromVisible_line {line : Text} (single : '\n' ∉ line) (rest : Text) :
    fromVisible (line ++ '\n' :: rest) =
      if Text.isBlankText (line ++ ['\n']) then fromVisible rest else line ++ '\n' :: rest := by
  rw [fromVisible, Text.linesWithBreaks_line single, dropBlankLines]
  split
  · rfl
  · rw [List.flatten_cons, Text.flatten_linesWithBreaks, List.append_assoc]
    rfl

/-- A line break at the end of a text that is not blank stays. -/
theorem fromVisible_break (text : Text) :
    fromVisible (text ++ ['\n']) = fromVisible text ++ ['\n'] ∨
      fromVisible (text ++ ['\n']) = [] ∧ fromVisible text = [] := by
  induction length : text.length using Nat.strong_induction_on generalizing text with
  | h size inductionHypothesis =>
    by_cases several : '\n' ∈ text
    · obtain ⟨line, others, rfl, alone⟩ := List.eq_append_cons_of_mem several
      have shorter : others.length < size := by
        rw [← length, List.length_append, List.length_cons]
        omega
      rw [List.append_assoc, List.cons_append, fromVisible_line alone, fromVisible_line alone]
      split
      · exact inductionHypothesis others.length shorter others rfl
      · exact .inl (by simp)
    · have blank : Text.isBlankText (text ++ ['\n']) = Text.isBlankText text := by
        rw [Text.isBlankText, List.all_append]
        exact Bool.and_true _
      by_cases empty : text = []
      · subst empty
        exact .inr ⟨rfl, rfl⟩
      · have alone : fromVisible text = if Text.isBlankText text then [] else text := by
          rw [fromVisible, Text.linesWithBreaks_of_single several empty, dropBlankLines]
          split <;> simp [dropBlankLines]
        rw [fromVisible_line several [], blank, alone]
        split
        · exact .inr ⟨rfl, rfl⟩
        · exact .inl rfl

/-- The line breaks around a body are trimmed with it. -/
theorem trimBody_lines (body : Text) : trimBody ('\n' :: (body ++ ['\n'])) = trimBody body := by
  have first : fromVisible ('\n' :: (body ++ ['\n'])) = fromVisible (body ++ ['\n']) :=
    fromVisible_line List.not_mem_nil _
  have trimmed (text : Text) : trimBody text = Text.trimEnd (fromVisible text) := rfl
  rw [trimmed, trimmed, first]
  rcases fromVisible_break body with more | ⟨none, alsoNone⟩
  · rw [more, Text.trimEnd, Text.trimEnd, Text.dropTrailing_eq_rdropWhile,
      Text.dropTrailing_eq_rdropWhile, List.rdropWhile_concat_pos _ _ _ (by decide)]
  · rw [none, alsoNone]

end Code

/-! ## The conversion -/

namespace Document

/-- A document that is a code block with its body on lines of its own. -/
def codeBlock (body : Text) : Text :=
  enclosed verbatimName ('\n' :: (body ++ ['\n']))

/-- The line breaks around a body bring in no pattern without them. -/
theorem not_infix_lines {pattern body : Text} (filled : pattern ≠ []) (single : '\n' ∉ pattern)
    (absent : ¬ pattern <:+: body) : ¬ pattern <:+: '\n' :: (body ++ ['\n']) := by
  have empty : ¬ pattern <:+: [] := fun occurs => filled (List.eq_nil_of_infix_nil occurs)
  exact Text.not_infix_append_cons single empty (Text.not_infix_append_cons single absent empty)

/-- A code block is stored as code between fences. -/
theorem protect_codeBlock {options : Options} (shown : options.preview = false) {body : Text}
    (isSealed : IsSealed body) :
    Code.protect options .empty (enclosed verbatimName body) =
      (⟨#[Code.fenced (Code.trimBody body)]⟩, Fragment.token 0) := by
  obtain ⟨found, same, read⟩ := readEnvironment_enclosed (by decide : '\\' ∉ verbatimName)
    isSealed (rfl : Cursor.start.escaped = false) []
  rw [List.append_nil] at read
  have rendered : Code.renderBlock options [] found.body = Code.fenced (Code.trimBody body) := by
    rw [Code.renderBlock, if_neg (by rw [shown]; exact Bool.false_ne_true), same]
    simp [Code.fenced_eq]
  have first : FragmentStore.empty.protectEnvironment verbatimName 0 0
      (fun environment => some (Code.renderBlock options [] environment.body))
      (enclosed verbatimName body) =
        (⟨#[Code.fenced (Code.trimBody body)]⟩, Fragment.token 0) := by
    have answered : FragmentStore.stored (fun (_ : Unit) environment =>
        ((), some (Code.renderBlock options [] environment.body))) ((), FragmentStore.empty)
          found = (((), ⟨#[Code.fenced (Code.trimBody body)]⟩), some (Fragment.token 0)) := by
      simp only [FragmentStore.stored, rendered]
      rfl
    rw [FragmentStore.protectEnvironment, editEnvironment_whole read answered]
  have plain : '\\' ∉ Fragment.token 0 := by decide
  have inline (name : Text) (listing : Bool) (store : FragmentStore) :
      Code.editInline name listing Code.storeInline store (Fragment.token 0) =
        (store, Fragment.token 0) :=
    (Alternation.inlineRule_startsAtBackslash name listing Code.storeInline).edit_eq plain store
  rw [Code.protect, Code.families, List.foldl_cons]
  simp only [first]
  rw [foldl_fixed_of_mem]
  · simp only [inline]
  · intro family _
    simp only [FragmentStore.protectEnvironment, editEnvironment_of_plain plain]

/-- A token alone passes between the storing of the code and the restoration. -/
theorem middlePasses_token {state : State} (labels : state.labels = .empty)
    (citations : state.citations = .empty) :
    runPasses middlePasses state (Fragment.token 0) = (state, Fragment.token 0) := by
  have escaped : Escaped ['$'] (Fragment.token 0) := by decide
  have tidy : Text.Tidy (Fragment.token 0) :=
    ⟨by decide, by decide, by decide, by decide, by decide⟩
  have unpunctuated : ∀ sign ∈ "?!`'-~".toList, sign ∉ Fragment.token 0 := by decide
  have numbered : state.number (Fragment.token 0) = state := by
    rw [State.number_of_escaped escaped, ← labels, ← citations]
  have protection : runPasses protectionPasses state (Fragment.token 0) =
      (state, Fragment.token 0) := by
    simp only [protectionPasses, runPasses, Pass.run, Link.protect_of_escaped escaped,
      Table.protect_of_escaped escaped, State.keepStore, Table.protectArrays_of_escaped escaped,
      Math.protect_of_escaped escaped]
  simp only [middlePasses, runPasses_append, preamble_of_escaped escaped, runPasses, Pass.run,
    numbered, protection, Numbering.resolveReferences_of_escaped escaped,
    structure_of_escaped escaped tidy.stripIndentation_eq,
    Symbol.normalize_of_unsigned escaped unpunctuated, tidy.normalizeBlanks_eq]

section CodeBlock

variable {options : Options} (shown : options.preview = false) {body : Text}
  (isSealed : IsSealed body) (unopened : ¬ Fragment.tokenOpening <:+: body)

include shown isSealed unopened

/-- A code block becomes code between fences, of which the last pass drops what it
takes for surplus. -/
theorem run_codeBlock :
    run options (codeBlock body) =
      ({ State.start options with store := ⟨#[Code.fenced (Code.trimBody body)]⟩ },
        Text.finishLayout (Code.fenced (Code.trimBody body))) := by
  have framed : IsSealed ('\n' :: (body ++ ['\n'])) :=
    ⟨not_infix_lines (by decide) (by decide) isSealed.unopened,
      not_infix_lines (by decide) (by decide) isSealed.unclosed⟩
  have visible : Text.isBlankText (codeBlock body) = false := rfl
  have commented : Code.stripComments (codeBlock body) = codeBlock body := by
    have unfenced : ∀ fence ∈ Code.fences, ¬ fence.1 <:+: [] := by decide
    have kept := Code.stripComments_enclosed unfenced (by decide) framed []
    have front : Code.keepLastLine [] = [] := rfl
    have back : Code.keepFirstLine [] = [] := rfl
    rwa [front, back, List.nil_append, List.append_nil] at kept
  have neutral : Fragment.neutralize (codeBlock body) = codeBlock body := by
    have apart : Text.Apart (beginMarker verbatimName) Fragment.tokenOpening ∧
        Text.Apart (endMarker verbatimName) Fragment.tokenOpening := ⟨by decide, by decide⟩
    have broken := Fragment.neutralize_enclosed apart [] ('\n' :: (body ++ ['\n'])) []
    have whole : Fragment.neutralize ('\n' :: (body ++ ['\n'])) = '\n' :: (body ++ ['\n']) :=
      replaceAll_of_absent (not_infix_lines (by decide) (by decide) unopened) _
    have nothing : Fragment.neutralize [] = [] := rfl
    rwa [whole, nothing, List.append_nil, List.nil_append] at broken
  have coded : runPasses codePasses (.start options) (codeBlock body) =
      ({ State.start options with store := ⟨#[Code.fenced (Code.trimBody body)]⟩ },
        Fragment.token 0) := by
    have stored := protect_codeBlock shown framed
    rw [Code.trimBody_lines] at stored
    simp only [codePasses, runPasses, Pass.run, commented, neutral, State.keepStore]
    exact congrArg (fun reached : FragmentStore × Text =>
      ({ State.start options with store := reached.1 }, reached.2)) stored
  have restored : FragmentStore.restore ⟨#[Code.fenced (Code.trimBody body)]⟩ (Fragment.token 0) =
      Code.fenced (Code.trimBody body) := FragmentStore.restore_single rfl
  rw [run, visible, if_neg Bool.false_ne_true, conversionPasses_eq, runPasses_append,
    runPasses_append, coded, middlePasses_token rfl rfl]
  simp only [lastPasses, runPasses, Pass.run, restored]

/-- A code block is put out between fences, without the blank lines that are surplus
behind a line which looks like a fence. It comes out as its trimmed body exactly when
two blank lines in a row stand only behind an even number of such lines. Nothing is
reported. -/
theorem convert_codeBlock :
    (convert options (codeBlock body)).output =
        Code.fenced (Text.joinWith ['\n'] (Text.dropSurplusBlankLines true false
          (Text.splitOn '\n' (Code.trimBody body)))) ∧
      ((convert options (codeBlock body)).output = Code.fenced (Code.trimBody body) ↔
        Text.BlankRunsFenced true (Text.splitOn '\n' (Code.trimBody body))) ∧
      (convert options (codeBlock body)).warnings = [] := by
  have converted := run_codeBlock shown isSealed unopened
  refine ⟨?_, ?_, ?_⟩
  · rw [convert, converted, Code.finishLayout_fenced]
  · rw [convert, converted, Code.finishLayout_fenced_eq_iff]
  · rw [convert, converted]
    rfl

end CodeBlock

/-- Blank lines, percent signs and commands in code come out as they are. -/
theorem convert_codeBlock_verbatim :
    let body := "x := 50% \\section\x7by\x7d\n\n\n  a".toList
    IsSealed body ∧ ¬ Fragment.tokenOpening <:+: body ∧
      (convert .standard (codeBlock body)).output = Code.fenced body := by
  intro body
  have isSealed : IsSealed body := ⟨by decide, by decide⟩
  have unopened : ¬ Fragment.tokenOpening <:+: body := by decide
  have trimmed : Code.trimBody body = body := by decide
  have runs : Text.BlankRunsFenced true (Text.splitOn '\n' (Code.trimBody body)) :=
    Text.blankRunsFenced_of_unfenced (by decide)
  have converted := (convert_codeBlock (rfl : Options.standard.preview = false) isSealed
    unopened).2.1.mpr runs
  rw [trimmed] at converted
  exact ⟨isSealed, unopened, converted⟩

/-- Behind a line that looks like a fence code loses a blank line. -/
theorem convert_codeBlock_fence :
    let body := "```\n\n\nx".toList
    IsSealed body ∧ ¬ Fragment.tokenOpening <:+: body ∧ Code.trimBody body = body ∧
      (convert .standard (codeBlock body)).output ≠ Code.fenced body := by
  intro body
  have written : (convert .standard (codeBlock body)).output = Code.fenced "```\n\nx".toList := by
    decide +kernel
  refine ⟨⟨by decide, by decide⟩, by decide, by decide, ?_⟩
  rw [written]
  exact Code.fenced_injective.ne (by decide)

end Document

end LatexMarkdown

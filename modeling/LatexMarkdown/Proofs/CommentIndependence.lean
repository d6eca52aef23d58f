import LatexMarkdown.Proofs.CodeIndependence

/-!
# What a comment does not change

A comment goes away with its line break before anything else reads the document, so
two documents that differ in a comment convert alike. But whether a verbatim
environment starts in a line is asked before where its comment starts. A comment that
names the start of such an environment stays, and the comments after it stay with it
until the environment is closed.
-/

namespace LatexMarkdown

namespace Code

open Document.Alternation (beforeComment_append)

/-- Nothing in a text names the start of a verbatim environment. -/
abbrev Unfenced (text : Text) : Prop :=
  ∀ fence ∈ fences, ¬ fence.1 <:+: text

/-- What is within a text names no more than the text does. -/
theorem Unfenced.of_infix {text piece : Text} (unfenced : Unfenced text)
    (within : piece <:+: text) : Unfenced piece :=
  fun fence listed occurs => unfenced fence listed (occurs.trans within)

/-- Neither a comment nor anything that keeps a comment from starting is in a line. -/
abbrev IsBare (line : Text) : Prop :=
  '\\' ∉ line ∧ '%' ∉ line

/-- A text with a comment in it, up to the end of its line. -/
def commented (before comment after : Text) : Text :=
  before ++ '%' :: (comment ++ '\n' :: after)

/-! ## One line -/

/-- A line is cut at the first percent sign behind a bare front. -/
theorem beforeComment_comment {front : Text} (bare : IsBare front) (comment : Text) :
    beforeComment 0 (front ++ '%' :: comment) = front := by
  rw [beforeComment_append bare.1 bare.2, beforeComment, if_neg (by decide), if_pos rfl,
    List.append_nil]

/-- A bare line is not cut. -/
theorem beforeComment_of_isBare {line : Text} (bare : IsBare line) :
    beforeComment 0 line = line := by
  have whole := beforeComment_append bare.1 bare.2 []
  rwa [List.append_nil, beforeComment, List.append_nil] at whole

/-- A line in which a verbatim environment starts is kept. -/
theorem stripCommentLines_fenced {line : Text} (fenced : ¬ Unfenced line) (others : List Text) :
    ∃ awaited, stripCommentLines none (line :: others) =
      line :: stripCommentLines awaited others := by
  rw [stripCommentLines]
  split
  · exact ⟨_, rfl⟩
  next found =>
    rw [List.find?_eq_none] at found
    refine absurd ?_ fenced
    intro fence listed occurs
    exact found fence listed (Text.contains_iff.mpr occurs)

/-! ## The lines of a document -/

/-- Complete lines in which no verbatim environment starts lose their comments by
themselves. -/
theorem stripComments_append {above : Text} (unfenced : Unfenced above)
    (complete : above = [] ∨ above.getLast? = some '\n') (text : Text) :
    stripComments (above ++ text) = stripComments above ++ stripComments text := by
  have unopened : ∀ line ∈ Text.linesWithBreaks above, Unfenced line := by
    intro line listed
    refine unfenced.of_infix ?_
    rw [← Text.flatten_linesWithBreaks above]
    exact List.infix_of_mem_flatten listed
  rw [stripComments, Text.linesWithBreaks_append complete, stripCommentLines_append unopened,
    List.flatten_append]
  rfl

/-- A bare text that is part of one line is kept. -/
theorem stripComments_of_isBare {line : Text} (single : '\n' ∉ line) (bare : IsBare line)
    (unfenced : Unfenced line) : stripComments line = line := by
  by_cases empty : line = []
  · subst empty
    rfl
  · have whole := Text.linesWithBreaks_piece single empty []
    rw [List.append_nil] at whole
    rw [stripComments, whole, stripCommentLines_unfenced]
    · simp [Text.linesWithBreaks, stripCommentLines, beforeComment_of_isBare bare]
    · simpa [Text.linesWithBreaks] using unfenced

/-- A line with a comment is a line by itself. -/
theorem stripComments_line {line comment : Text} (single : '\n' ∉ line)
    (alsoSingle : '\n' ∉ comment) (after : Text) :
    stripComments (commented line comment after) =
      (stripCommentLines none
        ((line ++ '%' :: (comment ++ ['\n'])) :: Text.linesWithBreaks after)).flatten := by
  have whole : '\n' ∉ line ++ '%' :: comment := by
    simp [single, alsoSingle]
  have split : commented line comment after = (line ++ '%' :: comment) ++ '\n' :: after := by
    simp [commented]
  rw [split, stripComments, Text.linesWithBreaks_line whole, List.append_assoc, List.cons_append]

section Commented

variable {before comment : Text} (unfenced : Unfenced before)
  (bare : IsBare (Text.lastLine before)) (single : '\n' ∉ comment)

include unfenced

/-- The complete lines before a comment lose their comments by themselves. -/
theorem stripComments_above (rest : Text) :
    stripComments (before ++ rest) =
      stripComments (Text.completeLines before) ++
        stripComments (Text.lastLine before ++ rest) := by
  have complete := Text.completeLines_append_lastLine before
  have above : Unfenced (Text.completeLines before) := unfenced.of_infix ⟨[], _, complete⟩
  have split := stripComments_append above (Text.getLast?_completeLines before)
    (Text.lastLine before ++ rest)
  rwa [← List.append_assoc, complete] at split

include bare

/-- Before a comment nothing but earlier comments is dropped. -/
theorem stripComments_before :
    stripComments before =
      stripComments (Text.completeLines before) ++ Text.lastLine before := by
  have split := stripComments_above unfenced []
  have line : Unfenced (Text.lastLine before) :=
    unfenced.of_infix (List.rtakeWhile_suffix ..).isInfix
  rwa [List.append_nil, List.append_nil,
    stripComments_of_isBare (Text.not_mem_lastLine before) bare line] at split

include single

/-- A comment that names the start of no verbatim environment goes away with its line
break. -/
theorem stripComments_commented (unnamed : Unfenced comment) (after : Text) :
    stripComments (commented before comment after) =
      stripComments before ++ stripComments after := by
  have line : Unfenced (Text.lastLine before) :=
    unfenced.of_infix (List.rtakeWhile_suffix ..).isInfix
  have whole : Unfenced (Text.lastLine before ++ '%' :: (comment ++ ['\n'])) := by
    intro fence listed
    have apart : '%' ∉ fence.1 ∧ '\n' ∉ fence.1 ∧ ¬ fence.1 <:+: [] := by
      revert fence
      decide
    refine Text.not_infix_append_cons apart.1 (line fence listed) ?_
    exact Text.not_infix_append_cons apart.2.1 (unnamed fence listed) apart.2.2
  rw [commented, stripComments_above unfenced, ← commented,
    stripComments_line (Text.not_mem_lastLine before) single, stripCommentLines_unfenced whole,
    List.flatten_cons, beforeComment_comment bare, stripComments_before unfenced bare,
    List.append_assoc]
  rfl

/-- A comment that names the start of a verbatim environment is kept, up to the end of
its line. -/
theorem stripComments_fenced (named : ¬ Unfenced comment) :
    stripComments (commented before comment []) = commented (stripComments before) comment [] := by
  have whole : ¬ Unfenced (Text.lastLine before ++ '%' :: (comment ++ ['\n'])) := by
    intro unfencedLine
    refine named (unfencedLine.of_infix ?_)
    exact ⟨Text.lastLine before ++ ['%'], ['\n'], by simp⟩
  obtain ⟨awaited, kept⟩ := stripCommentLines_fenced whole (Text.linesWithBreaks [])
  rw [commented, stripComments_above unfenced, ← commented,
    stripComments_line (Text.not_mem_lastLine before) single, kept,
    stripComments_before unfenced bare]
  simp [commented, Text.linesWithBreaks, stripCommentLines]

/-- A comment goes away by itself, whatever follows it, exactly when it names the
start of no verbatim environment. -/
theorem stripComments_commented_iff :
    (∀ after, stripComments (commented before comment after) =
      stripComments before ++ stripComments after) ↔ Unfenced comment := by
  constructor
  · intro inert
    by_contra named
    have dropped := inert []
    rw [stripComments_fenced unfenced bare single named] at dropped
    have lengths := congrArg List.length dropped
    simp [commented, stripComments, Text.linesWithBreaks, stripCommentLines] at lengths
  · exact stripComments_commented unfenced bare single

end Commented

end Code

namespace Document

open Code (Unfenced IsBare commented)

/-- A text in which a comment starts is not blank. -/
theorem isBlankText_commented (before comment after : Text) :
    Text.isBlankText (commented before comment after) = false := by
  rw [Text.isBlankText, List.all_eq_false]
  exact ⟨'%', by simp [commented], by decide⟩

/-- What follows the stripping of comments sees nothing else of the source. -/
theorem runPasses_congr_of_stripComments {first second : Text}
    (same : Code.stripComments first = Code.stripComments second) (others : List Pass)
    (state : State) :
    runPasses (.stripComments :: others) state first =
      runPasses (.stripComments :: others) state second := by
  simp only [runPasses, Pass.run, same]

/-- What a comment says changes nothing about a conversion, when it does not name the
start of a verbatim environment: the same is put out, reported and recorded, and the
conversion comes to an end for the one comment when it does for the other. -/
theorem convert_commented {before first second : Text} (unfenced : Unfenced before)
    (bare : IsBare (Text.lastLine before)) (single : '\n' ∉ first) (alsoSingle : '\n' ∉ second)
    (unnamed : Unfenced first) (alsoUnnamed : Unfenced second) (options : Options)
    (after : Text) :
    comesToEnd options (commented before first after) =
        comesToEnd options (commented before second after) ∧
      convert options (commented before first after) =
        convert options (commented before second after) := by
  have same : Code.stripComments (commented before first after) =
      Code.stripComments (commented before second after) := by
    rw [Code.stripComments_commented unfenced bare single unnamed,
      Code.stripComments_commented unfenced bare alsoSingle alsoUnnamed]
  have passes (others : List Pass) := runPasses_congr_of_stripComments same others (.start options)
  constructor
  · rw [comesToEnd_eq (isBlankText_commented ..), comesToEnd_eq (isBlankText_commented ..),
      codePasses, passes]
  · have run : run options (commented before first after) =
        run options (commented before second after) := by
      simp only [run, isBlankText_commented, Bool.false_eq_true, if_false, conversionPasses_eq,
        runPasses_append, codePasses, passes]
    rw [convert, convert, run]

/-- Percent signs, commands and the end of a code block may stand in a comment. -/
theorem convert_commented_commands :
    let before := "a\n\\emph\x7bb\x7d\nc".toList
    let first := " 50% \\section\x7bx\x7d \\label\x7bk\x7d \\end\x7bverbatim\x7d".toList
    (Unfenced before ∧ IsBare (Text.lastLine before) ∧ '\n' ∉ first ∧ Unfenced first) ∧
      convert .standard (commented before first "d".toList) =
        convert .standard (commented before [] "d".toList) := by
  intro before first
  have unfenced : Unfenced before := by decide
  have bare : IsBare (Text.lastLine before) := by decide
  have single : '\n' ∉ first := by decide
  have unnamed : Unfenced first := by decide
  have converted := convert_commented unfenced bare single (List.not_mem_nil) unnamed (by decide)
    .standard "d".toList
  exact ⟨⟨unfenced, bare, single, unnamed⟩, converted.2⟩

/-- A comment that names the start of a code block is put out. -/
theorem convert_commented_named :
    let named := "\\begin\x7bverbatim\x7d".toList
    (Unfenced "a".toList ∧ IsBare (Text.lastLine "a".toList) ∧ '\n' ∉ named) ∧
      convert .standard (commented "a".toList named "b".toList) ≠
        convert .standard (commented "a".toList [] "b".toList) := by
  intro named
  have dropped : (convert .standard (commented "a".toList [] "b".toList)).output = "ab".toList := by
    decide +kernel
  have kept : '%' ∈ (convert .standard (commented "a".toList named "b".toList)).output := by
    decide +kernel
  refine ⟨by decide, fun same => ?_⟩
  rw [same, dropped] at kept
  exact absurd kept (by decide)

end Document

end LatexMarkdown

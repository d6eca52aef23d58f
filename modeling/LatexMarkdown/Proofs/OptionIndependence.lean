import LatexMarkdown.Proofs.Agreement
import LatexMarkdown.Proofs.Run

/-!
# What the options do not change

The options decide what fragments look like, and not what the passes before the
numbering read. What a document defines is therefore the same under all options,
and so are its numbers, unless it asks for the title block, which only a preview
leaves out.
-/

namespace LatexMarkdown

open Scan

namespace Warning

/-- The warnings about keys that are declared again. -/
def duplicates (warnings : List Warning) : List Warning :=
  warnings.filter fun warning => warning.kind = .duplicateLabel

/-- Warnings of any other kind are not about such keys. -/
theorem duplicates_append_about (warnings : List Warning) {kind : WarningKind}
    (other : kind ≠ .duplicateLabel) (subjects : List Text) :
    duplicates (warnings ++ subjects.map (about kind)) = duplicates warnings := by
  simp [duplicates, about, other]

/-- One more warning of any other kind is not about such a key. -/
theorem duplicates_concat (warnings : List Warning) {kind : WarningKind}
    (other : kind ≠ .duplicateLabel) (subject : Text) :
    duplicates (warnings ++ [about kind subject]) = duplicates warnings :=
  duplicates_append_about warnings other [subject]

end Warning

open Warning (duplicates)

/-! ## Passes after the numbering -/

namespace Scan

variable {σ : Type} {holds : σ → Prop}

/-- What every step keeps of the state, the steps over a list keep. -/
theorem mapThread_keeps {α β : Type} {step : σ → α → σ × β}
    (keeps : ∀ state item, holds state → holds (step state item).1) (items : List α) {state : σ}
    (start : holds state) : holds (mapThread step state items).1 := by
  induction items generalizing state with
  | nil => exact start
  | cons item others inductionHypothesis => exact inductionHypothesis (keeps state item start)

/-- Where a command is not found, the edit of it changes nothing. -/
theorem editFrom_of_not_found {name : Text} {signature : Signature}
    {nested : σ → Text → σ × Text} {answer : Answer σ Arguments} {cursor : Cursor} {text : Text}
    (unused : findCommandFrom name cursor text = none) (state : σ) :
    editFrom (commandRule name signature nested answer) state cursor 0 text = (state, text) := by
  induction text generalizing cursor with
  | nil => rfl
  | cons c rest inductionHypothesis =>
    rw [findCommandFrom] at unused
    split_ifs at unused with here
    have silent : commandRule name signature nested answer state cursor (c :: rest) =
        (state, none) := by
      rw [commandRule]
      split
      · rfl
      next unescaped =>
        have absent : afterCommand? name (c :: rest) = none := by
          simpa [unescaped] using here
        rw [absent]
    simp only [editFrom, silent, inductionHypothesis unused]

/-- A text in which a command is not found has nothing to replace. -/
theorem replaceCommand_of_not_found {name text : Text} {signature : Signature}
    {answer : Arguments → Option Text} (unused : findCommandAt name text 0 = none) :
    replaceCommand name signature answer text = text := by
  have start : findCommandFrom name Cursor.start text = none := by
    cases text <;> simpa [findCommandAt, Text.suffixAt?, isEscapedAt, Cursor.start] using unused
  rw [replaceCommand, editCommand]
  cases text.length with
  | zero => rfl
  | succ depth => rw [editCommandAt, edit, editFrom_of_not_found start]

end Scan

namespace Numbering

/-- What every answer keeps of the state, the edit of a command keeps. -/
theorem editAlways_keeps {σ : Type} {holds : σ → Prop} {answer : σ → Arguments → σ × Text}
    (keeps : ∀ state arguments, holds state → holds (answer state arguments).1) (name : Text)
    (maxOptions required : Nat) {state : σ} (start : holds state) (text : Text) :
    holds (editAlways name maxOptions required answer state text).1 :=
  (Editor.command name ⟨true, maxOptions, required⟩).edit_keeps
    (fun state arguments => ((answer state arguments).1, some (answer state arguments).2)) keeps
    state start text

/-- What every answer keeps of the state, the edits of some commands keep. -/
theorem foldl_editAlways_keeps {σ : Type} {holds : σ → Prop} {answer : σ → Arguments → σ × Text}
    (keeps : ∀ state arguments, holds state → holds (answer state arguments).1)
    (maxOptions required : Nat) (names : List Text) {state : σ} (start : holds state)
    (text : Text) :
    holds (names.foldl (fun (state, text) name =>
      editAlways name maxOptions required answer state text) (state, text)).1 := by
  induction names generalizing state text with
  | nil => exact start
  | cons name others inductionHypothesis =>
    exact inductionHypothesis (editAlways_keeps keeps name maxOptions required start text) _

/-- An unknown label is no key that is declared again. -/
theorem duplicates_resolveLabel (labels : LabelRegistry) (warnings : List Warning) (key : Text) :
    duplicates (resolveLabel labels warnings key).1 = duplicates warnings := by
  rw [resolveLabel]
  split
  · rfl
  · exact Warning.duplicates_concat warnings (by decide) key

/-- An unknown bibliography item is no key that is declared again. -/
theorem duplicates_resolveItem (citations : CitationRegistry) (warnings : List Warning)
    (key : Text) : duplicates (resolveItem citations warnings key).1 = duplicates warnings := by
  rw [resolveItem]
  split
  · rfl
  · exact Warning.duplicates_concat warnings (by decide) key

/-- Resolving references reports no keys that are declared again. -/
theorem duplicates_resolveReferences (labels : LabelRegistry) (citations : CitationRegistry)
    (warnings : List Warning) (text : Text) :
    duplicates (resolveReferences labels citations warnings text).1 = duplicates warnings := by
  let same (reached : List Warning) : Prop := duplicates reached = duplicates warnings
  have start : same warnings := rfl
  have citation (reached : List Warning) (arguments : Arguments) (keeps : same reached) :
      same (renderCitation citations reached arguments).1 := by
    rw [renderCitation]
    exact mapThread_keeps (fun state key => (duplicates_resolveItem citations state key).trans) _
      keeps
  have reference (reached : List Warning) (arguments : Arguments) (keeps : same reached) :
      same (renderReference labels reached arguments).1 := by
    rw [renderReference]
    exact mapThread_keeps (fun state key => (duplicates_resolveLabel labels state key).trans) _
      keeps
  have equation (reached : List Warning) (arguments : Arguments) (keeps : same reached) :
      same (renderEquationReference labels reached arguments).1 := by
    have resolved := (duplicates_resolveLabel labels reached
      (Text.trim (arguments.argument 0))).trans keeps
    rw [renderEquationReference]
    simp only
    split <;> exact resolved
  have cited := foldl_editAlways_keeps citation 2 1 citationNames start text
  rw [resolveReferences]
  generalize citationNames.foldl _ (warnings, text) = reached at cited ⊢
  have referred := foldl_editAlways_keeps reference 0 1 referenceNames cited reached.2
  simp only
  generalize referenceNames.foldl _ reached = reached at referred ⊢
  have numbered := editAlways_keeps equation "eqref".toList 0 1 referred reached.2
  exact editAlways_keeps (fun _ _ keeps => keeps) "pageref".toList 0 1 numbered _

end Numbering

namespace Table

/-- Storing one table reports no keys that are declared again. -/
theorem duplicates_protectOne (context : TableContext) (family : Family) (sink : TableSink)
    (found : Environment) :
    duplicates (protectOne context family sink found).1.warnings = duplicates sink.warnings := by
  cases preview : context.preview with
  | true => rw [protectOne, if_pos preview]
  | false =>
    have full : ¬ context.preview = true := by rw [preview]; exact Bool.false_ne_true
    have warned : (protectOne context family sink found).1.warnings =
        (Numbering.resolveReferences context.labels context.citations sink.warnings
          found.body).1 := by
      rw [protectOne, if_neg full]
    rw [warned, Numbering.duplicates_resolveReferences]

/-- Storing tables reports no keys that are declared again. -/
theorem duplicates_protect (context : TableContext) (sink : TableSink) (text : Text) :
    duplicates (protect context sink text).1.warnings = duplicates sink.warnings := by
  rw [protect_eq]
  let kept (reached : TableSink) : Prop :=
    duplicates reached.warnings = duplicates sink.warnings
  have start : kept sink := rfl
  refine Stage.runAll_keeps ?_ text start
  intro stage listed reached text keeps
  obtain ⟨family, -, rfl⟩ := List.mem_map.mp listed
  exact (Editor.environment ..).edit_keeps (protectOne context family)
    (fun further found => (duplicates_protectOne context family further found).trans) reached keeps
    text

end Table

namespace Document

/-- What the numbering of keys leaves in a state. -/
def State.numbering (state : State) : LabelRegistry × CitationRegistry × List Warning :=
  (state.labels, state.citations, duplicates state.warnings)

/-- Only one pass numbers keys. -/
theorem Pass.numbering_run {pass : Pass} (other : pass ≠ .numberKeys) (state : State)
    (text : Text) : (pass.run state text).1.numbering = state.numbering := by
  have reported {kind : WarningKind} (different : kind ≠ .duplicateLabel)
      (subjects : List Text) :
      (state.warn (subjects.map (Warning.about kind))).numbering = state.numbering := by
    rw [State.numbering, State.warn, Warning.duplicates_append_about _ different]
    rfl
  have kept (result : FragmentStore × Text) :
      (state.keepStore result).1.numbering = state.numbering := rfl
  cases pass with
  | numberKeys => exact absurd rfl other
  | protectCode | protectLinks | protectArrays | protectFormulas => exact kept _
  | protectTables =>
    simp only [run, State.numbering, Table.duplicates_protect]
  | resolveReferences =>
    simp only [run, State.numbering, Numbering.duplicates_resolveReferences]
  | convertFormat =>
    simp only [run, Inline.convertFormat]
    exact reported (by decide) _
  | dropUnknown =>
    simp only [run, Block.dropUnknown]
    exact reported (by decide) _
  | _ => rfl

/-- Passes that do not number keys keep all numbers. -/
theorem numbering_runPasses {passes : List Pass} (others : .numberKeys ∉ passes) (state : State)
    (text : Text) : (runPasses passes state text).1.numbering = state.numbering := by
  induction passes generalizing state text with
  | nil => rfl
  | cons pass further inductionHypothesis =>
    rw [List.mem_cons, not_or] at others
    rw [runPasses, inductionHypothesis others.2, Pass.numbering_run (Ne.symm others.1)]

/-! ## Passes before the numbering -/

/-- The passes that read the title block and the definitions. -/
def definitionPasses : List Pass :=
  preamblePasses.dropLast

/-- The state and the text at the moment when the title block is written. In a
blank document nothing is looked at. -/
def beforeTitle (options : Options) (source : Text) : State × Text :=
  if Text.isBlankText source then (.start options, [])
  else runPasses (codePasses ++ definitionPasses) (.start options) source

/-- The state and the text after the passes over the preamble. -/
def afterPreamble (options : Options) (source : Text) : State × Text :=
  if Text.isBlankText source then (.start options, [])
  else runPasses (codePasses ++ preamblePasses) (.start options) source

/-- Under any two options fragments need not have anything in common. -/
abbrev State.Related : State → State → Prop :=
  State.Alike (fun _ _ => True) fun _ _ => True

variable (first second : Options) (source : Text)

/-- Up to the title block the options change only what fragments look like. -/
theorem beforeTitle_alike :
    State.Related (beforeTitle first source).1 (beforeTitle second source).1 ∧
      (beforeTitle first source).2 = (beforeTitle second source).2 := by
  have start : State.Related (.start first) (.start second) := ⟨trivial, .empty, rfl⟩
  rw [beforeTitle, beforeTitle]
  split
  · exact ⟨start, rfl⟩
  · have stored : Agrees (FragmentStore.Matched fun _ _ => True)
        (Code.protect (State.start first).options) (Code.protect (State.start second).options) :=
      Code.protect_agrees (fun _ _ => trivial) fun _ => trivial
    obtain ⟨coded, same⟩ := keepStore_alike start
      (stored _ _ (Fragment.neutralize (Code.stripComments source)) start.matched)
    simp only [codePasses, List.cons_append, List.nil_append, runPasses, Pass.run]
    rw [← same]
    exact runPasses_agrees (fun pass listed => Pass.run_alike (by revert pass; decide)) _ _ _ coded

/-- Writing the title block leaves what is known of the document. -/
theorem state_afterPreamble (options : Options) :
    (afterPreamble options source).1 = (beforeTitle options source).1 := by
  have preamble : codePasses ++ preamblePasses =
      codePasses ++ definitionPasses ++ [.expandTitle] := rfl
  rw [afterPreamble, beforeTitle, preamble]
  split
  · rfl
  · rw [runPasses_append _ [.expandTitle]]
    simp only [runPasses, Pass.run]

/-- What is numbered when no title block is asked for. -/
theorem numbering_run_of_untitled (options : Options)
    (untitled : findCommandAt "maketitle".toList (beforeTitle options source).2 0 = none) :
    (run options source).1.numbering =
      if Text.isBlankText source then (State.start options).numbering
      else ((beforeTitle options source).1.number (beforeTitle options source).2).numbering := by
  have split : conversionPasses = codePasses ++ definitionPasses ++
      .expandTitle :: .numberKeys :: conversionPasses.drop 10 := rfl
  rw [run]
  split_ifs with blank
  · rfl
  · have reached : runPasses (codePasses ++ definitionPasses) (.start options) source =
        beforeTitle options source := by
      rw [beforeTitle, if_neg blank]
    rw [split, runPasses_append, reached]
    have later : .numberKeys ∉ conversionPasses.drop 10 := by decide
    simp only [runPasses, numbering_runPasses later]
    simp only [Pass.run, Metadata.expandTitle, replaceCommand_of_not_found untitled]

/-- The options change neither what a document defines nor, when it asks for no
title block, its numbers and the report on keys that are declared again. -/
theorem numbering_independent :
    ((afterPreamble first source).1.metadata = (afterPreamble second source).1.metadata ∧
        (afterPreamble first source).1.colors = (afterPreamble second source).1.colors ∧
        (afterPreamble first source).1.theorems = (afterPreamble second source).1.theorems) ∧
      (findCommandAt "maketitle".toList (beforeTitle first source).2 0 = none →
        (convert first source).labels = (convert second source).labels ∧
          (convert first source).citations = (convert second source).citations ∧
          duplicates (convert first source).warnings =
            duplicates (convert second source).warnings) := by
  obtain ⟨alike, written⟩ := beforeTitle_alike first second source
  constructor
  · rw [state_afterPreamble, state_afterPreamble, ← alike.same]
    simp only [State.withStore, and_self]
  · intro untitled
    have numbers : (run first source).1.numbering = (run second source).1.numbering := by
      rw [numbering_run_of_untitled source first untitled,
        numbering_run_of_untitled source second (written ▸ untitled), ← alike.same, ← written]
      simp only [State.numbering, State.number, State.withStore, State.warn, State.start]
    simp only [State.numbering, Prod.mk.injEq] at numbers
    obtain ⟨labels, citations, warnings⟩ := numbers
    simp only [convert]
    exact ⟨congrArg LabelRegistry.rendered labels, congrArg CitationRegistry.entries citations,
      warnings⟩

/-- The key that is declared twice around code is reported, by a preview as for the whole
document. -/
theorem numbering_independent_around_code :
    let source := "\\label\x7ba\x7d\\verb|b|\\label\x7ba\x7d".toList
    findCommandAt "maketitle".toList (beforeTitle .standard source).2 0 = none ∧
      duplicates (convert .standard source).warnings = [.about .duplicateLabel ['a']] ∧
      duplicates (convert .standardPreview source).warnings = [.about .duplicateLabel ['a']] := by
  intro source
  have untitled : findCommandAt "maketitle".toList (beforeTitle .standard source).2 0 = none := by
    decide +kernel
  have reported : duplicates (convert .standard source).warnings =
      [.about .duplicateLabel ['a']] := by
    decide +kernel
  have same := ((numbering_independent .standard .standardPreview source).2 untitled).2.2
  exact ⟨untitled, reported, same.symm.trans reported⟩

end Document

end LatexMarkdown

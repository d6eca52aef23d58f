import LatexMarkdown.Proofs.Editor

/-!
# Stages

A pass that stores fragments is a list of stages. What a stage notes of the text
it reads decides whether the state that it reaches still has a property, and so
does what all stages note one after another.
-/

namespace LatexMarkdown.Scan

/-- One step over a text that keeps a property of the state exactly when all that
it notes is good. -/
structure Stage (σ : Type) (holds : σ → Prop) (good : Text → Prop) where
  run : σ → Text → σ × Text
  notes : σ → Text → List Text
  decides : ∀ state text, holds (run state text).1 ↔
    holds state ∧ ∀ note ∈ notes state text, good note

namespace Stage

variable {σ : Type} {holds : σ → Prop} {good : Text → Prop}

/-- The stage of an editor with one answer. -/
def ofEditor {α ρ : Type} (editor : Editor α ρ) (answer : σ → α → σ × ρ)
    (note : σ → α → List Text)
    (step : ∀ state found, holds (answer state found).1 ↔
      holds state ∧ ∀ text ∈ note state found, good text) : Stage σ holds good where
  run := editor.edit answer
  notes := editor.notes answer note
  decides := editor.edit_iff_notes step

/-- Run stages one after another. -/
def runAll : List (Stage σ holds good) → σ → Text → σ × Text
  | [], state, text => (state, text)
  | stage :: others, state, text =>
    runAll others (stage.run state text).1 (stage.run state text).2

/-- What stages note, one after another. -/
def notesAll : List (Stage σ holds good) → σ → Text → List Text
  | [], _, _ => []
  | stage :: others, state, text =>
    stage.notes state text ++
      notesAll others (stage.run state text).1 (stage.run state text).2

/-- Stages keep a property exactly when all that they note is good. -/
theorem runAll_iff_notes (stages : List (Stage σ holds good)) (state : σ) (text : Text) :
    holds (runAll stages state text).1 ↔
      holds state ∧ ∀ note ∈ notesAll stages state text, good note := by
  induction stages generalizing state text with
  | nil => simp [runAll, notesAll]
  | cons stage others inductionHypothesis =>
    rw [runAll, inductionHypothesis, stage.decides]
    simp only [notesAll, List.mem_append, or_imp, forall_and, and_assoc]

/-- Stages over a list of items are a fold over the items. -/
theorem runAll_map {α : Type} (stageOf : α → Stage σ holds good) (items : List α) (state : σ)
    (text : Text) :
    runAll (items.map stageOf) state text =
      items.foldl (fun (state, text) item => (stageOf item).run state text) (state, text) := by
  induction items generalizing state text with
  | nil => rfl
  | cons item others inductionHypothesis =>
    rw [List.map_cons, runAll, inductionHypothesis]
    rfl

/-- A fold over listed items whose steps are stages runs these stages. -/
theorem foldl_eq_runAll {α : Type} {items : List α}
    (stageOf : { item // item ∈ items } → Stage σ holds good) {step : σ × Text → α → σ × Text}
    (start : σ × Text)
    (steps : ∀ item state text, step (state, text) item.1 = (stageOf item).run state text) :
    items.foldl step start = runAll (items.attach.map stageOf) start.1 start.2 := by
  rw [runAll_map, ← List.foldl_attach]
  congr 1
  funext reached item
  exact steps item reached.1 reached.2

/-- Running two lists of stages is running both as one list. -/
theorem runAll_append (first second : List (Stage σ holds good)) (state : σ) (text : Text) :
    runAll (first ++ second) state text =
      runAll second (runAll first state text).1 (runAll first state text).2 := by
  induction first generalizing state text with
  | nil => rfl
  | cons stage others inductionHypothesis =>
    rw [List.cons_append, runAll, inductionHypothesis]
    rfl

end Stage

end LatexMarkdown.Scan

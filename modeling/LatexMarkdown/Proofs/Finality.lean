import LatexMarkdown.Proofs.Run
import LatexMarkdown.Proofs.Taken

/-!
# Which fragments are final

A fragment is final when it holds no token, so that one restoration of the
document restores it for good. Fragments take texts over from the document, and
these may hold tokens of fragments that were stored before. At the restoration
the store is final exactly when no text that was taken over holds a token.
-/

namespace LatexMarkdown.Document

open Fragment

/-- The texts that the fragments of a pass take over. -/
def Pass.taken (pass : Pass) (state : State) (text : Text) : List Text :=
  match pass with
  | protectCode => Scan.Stage.notesAll (Code.stages state.options) state.store text
  | protectLinks => Scan.Stage.notesAll (Link.stages state.options.preview) state.store text
  | protectTables =>
    Scan.Stage.notesAll (Table.stages state.tableContext) ⟨state.warnings, state.store⟩ text
  | protectArrays => (Table.arrayStage state.options.preview state.colors).notes state.store text
  | protectFormulas =>
    Scan.Stage.notesAll (Math.stages state.colors state.labels state.options.preview)
      state.store text
  | _ => []

/-- A pass that stores nothing keeps the store as it is. -/
theorem Pass.final_of_keeps {pass : Pass} {state : State} {text : Text}
    (kept : (pass.run state text).1.store = state.store) (nothing : pass.taken state text = []) :
    (pass.run state text).1.store.Final ↔
      state.store.Final ∧ ∀ part ∈ pass.taken state text, TokenFree part := by
  rw [kept, nothing]
  simp

/-- A pass keeps the store final exactly when its fragments take no token over. -/
theorem Pass.final_run (pass : Pass) (state : State) (text : Text) :
    (pass.run state text).1.store.Final ↔
      state.store.Final ∧ ∀ part ∈ pass.taken state text, TokenFree part := by
  cases pass with
  | protectCode =>
    have stored : (Pass.protectCode.run state text).1.store =
        (Code.protect state.options state.store text).1 := rfl
    rw [stored, Code.protect_eq]
    exact Scan.Stage.runAll_iff_notes (Code.stages state.options) state.store text
  | protectLinks =>
    have stored : (Pass.protectLinks.run state text).1.store =
        (Link.protect state.options.preview state.store text).1 := rfl
    rw [stored, Link.protect_eq]
    exact Scan.Stage.runAll_iff_notes (Link.stages state.options.preview) state.store text
  | protectTables =>
    have stored : (Pass.protectTables.run state text).1.store =
        (Table.protect state.tableContext ⟨state.warnings, state.store⟩ text).1.store := rfl
    rw [stored, Table.protect_eq]
    exact Scan.Stage.runAll_iff_notes (Table.stages state.tableContext)
      ⟨state.warnings, state.store⟩ text
  | protectArrays =>
    exact (Table.arrayStage state.options.preview state.colors).decides state.store text
  | protectFormulas =>
    have stored : (Pass.protectFormulas.run state text).1.store =
        (Math.protect state.colors state.labels state.options.preview state.store text).1 := by
      rw [run, State.keepStore]
    rw [stored, Math.protect_eq]
    exact Scan.Stage.runAll_iff_notes
      (Math.stages state.colors state.labels state.options.preview) state.store text
  | resolveReferences => exact final_of_keeps (by simp only [run]) rfl
  | convertFormat => exact final_of_keeps (by simp only [run, State.warn]) rfl
  | dropUnknown => exact final_of_keeps (by simp only [run, State.warn]) rfl
  | _ => exact final_of_keeps rfl rfl

/-- The texts that the fragments of passes take over, one pass after another. -/
def takenAlong : List Pass → State → Text → List Text
  | [], _, _ => []
  | pass :: others, state, text =>
    pass.taken state text ++
      takenAlong others (pass.run state text).1 (pass.run state text).2

/-- Passes keep the store final exactly when their fragments take no token over. -/
theorem final_runPasses (passes : List Pass) (state : State) (text : Text) :
    (runPasses passes state text).1.store.Final ↔
      state.store.Final ∧ ∀ part ∈ takenAlong passes state text, TokenFree part := by
  induction passes generalizing state text with
  | nil => exact (and_iff_left (List.forall_mem_nil _)).symm
  | cons pass others inductionHypothesis =>
    rw [runPasses, inductionHypothesis, pass.final_run]
    simp only [takenAlong, List.mem_append, or_imp, forall_and, and_assoc]

/-- The texts that the fragments of a document take over from it. -/
def takenTexts (options : Options) (source : Text) : List Text :=
  if Text.isBlankText source then []
  else takenAlong (codePasses ++ middlePasses) (.start options) source

/-- At the restoration no fragment holds a token exactly when no text that a
fragment has taken over holds one. -/
theorem final_beforeRestoration (options : Options) (source : Text) :
    (∀ fragment ∈ (beforeRestoration options source).1.store.fragments, TokenFree fragment) ↔
      ∀ text ∈ takenTexts options source, TokenFree text := by
  have nothing : (State.start options).store.Final := by
    intro fragment member
    exact absurd member (Array.not_mem_empty fragment)
  rw [beforeRestoration, takenTexts]
  split
  · exact iff_of_true nothing (List.forall_mem_nil _)
  · exact (final_runPasses ..).trans (and_iff_right nothing)

/-- Code inside a formula is stored first, and the formula takes its token
over. -/
theorem formula_takes_token :
    ∃ fragment ∈ (beforeRestoration .standard "$\\verb|x|$".toList).1.store.fragments,
      ¬ TokenFree fragment := by
  have stored : (beforeRestoration .standard "$\\verb|x|$".toList).1.store.fragments =
      #["<code>x</code>".toList, "$@@BLOCK0@@$".toList] := by decide +kernel
  refine ⟨"$@@BLOCK0@@$".toList, ?_, fun free => ?_⟩
  · rw [stored]
    simp
  · exact free ['0'] (by decide) (List.forall_mem_singleton.mpr (by decide)) ⟨['$'], ['$'], rfl⟩

end LatexMarkdown.Document

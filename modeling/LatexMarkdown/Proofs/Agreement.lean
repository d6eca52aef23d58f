import LatexMarkdown.Proofs.Run
import LatexMarkdown.Proofs.Taken

/-!
# Two conversions side by side

A token shows only the place of its fragment. Two conversions whose stores are of
one size therefore write the same text, whatever their fragments are, and what is
alike of the fragments one by one stays alike when more of them are stored.
-/

namespace LatexMarkdown

open Fragment Scan

namespace Scan

/-- Steps over a text that agree for each item of a list agree for the whole
list. -/
theorem foldl_agrees {σ τ α : Type} {related : σ → τ → Prop} {one : α → σ → Text → σ × Text}
    {other : α → τ → Text → τ × Text} (each : ∀ item, Agrees related (one item) (other item))
    (items : List α) :
    Agrees related
      (fun state text => items.foldl (fun (state, text) item => one item state text) (state, text))
      fun state text =>
        items.foldl (fun (state, text) item => other item state text) (state, text) := by
  intro state twin text start
  induction items generalizing state twin text with
  | nil => exact ⟨start, rfl⟩
  | cons item others inductionHypothesis =>
    obtain ⟨reached, written⟩ := each item state twin text start
    have later := inductionHypothesis _ _ (one item state text).2 reached
    simp only [List.foldl_cons]
    have same : other item twin text = ((other item twin text).1, (one item state text).2) :=
      Prod.ext rfl written.symm
    rw [same]
    exact later

end Scan

namespace Scan.Stage

variable {σ : Type} {holds : σ → Prop} {good : Text → Prop} {related : σ → σ → Prop}

/-- Lists of stages that agree one by one agree as a whole. -/
theorem runAll_agrees {first second : List (Stage σ holds good)}
    (each : List.Forall₂ (fun one other => Agrees related one.run other.run) first second) :
    Agrees related (runAll first) (runAll second) := by
  intro state other text start
  induction each generalizing state other text with
  | nil => exact ⟨start, rfl⟩
  | @cons one twin _ _ here _ inductionHypothesis =>
    obtain ⟨reached, same⟩ := here state other text start
    simp only [runAll, same]
    exact inductionHypothesis _ _ _ reached

/-- What every stage keeps of the state, all stages keep. -/
theorem runAll_keeps {stages : List (Stage σ holds good)} {kept : σ → Prop}
    (each : ∀ stage ∈ stages, ∀ state text, kept state → kept (stage.run state text).1)
    {state : σ} (text : Text) (start : kept state) : kept (runAll stages state text).1 := by
  induction stages generalizing state text with
  | nil => exact start
  | cons stage others inductionHypothesis =>
    rw [List.forall_mem_cons] at each
    exact inductionHypothesis each.2 _ (each.1 state text start)

end Scan.Stage

namespace FragmentStore

variable {like : Text → Text → Prop} {first second : FragmentStore}

/-- Stores of one size whose fragments are alike one by one. -/
def Matched (like : Text → Text → Prop) (first second : FragmentStore) : Prop :=
  List.Forall₂ like first.fragments.toList second.fragments.toList

theorem Matched.empty : Matched like .empty .empty :=
  .nil

theorem Matched.size_eq (matched : Matched like first second) : first.size = second.size := by
  simpa [size] using matched.length_eq

/-- What is stored next in both stores gets the same token. -/
theorem Matched.token_eq (matched : Matched like first second) (fragment other : Text) :
    (first.push fragment).2 = (second.push other).2 :=
  congrArg Fragment.token matched.size_eq

/-- Fragments that are alike keep the stores alike. -/
theorem Matched.push (matched : Matched like first second) {fragment other : Text}
    (alike : like fragment other) : Matched like (first.push fragment).1 (second.push other).1 := by
  simp only [Matched, FragmentStore.push, Array.toList_push]
  exact List.rel_append matched (.cons alike .nil)

/-- Two ways to render that give fragments alike store in agreement. -/
theorem storing_agrees {α ρ : Type} {render other : α → Text}
    (alike : ∀ found, like (render found) (other found)) (write : α → Text → ρ) :
    Agrees (Matched like) (storing render write) (storing other write) := by
  intro state twin found matched
  exact ⟨matched.push (alike found), congrArg (write found) (matched.token_eq _ _)⟩

/-- Stages that render alike agree. -/
theorem storeStage_agrees {α ρ : Type} {editor : Editor α ρ} {render other : α → Text}
    {write : α → Text → ρ} {taken alsoTaken : α → List Text}
    {decides : ∀ found, TokenFree (render found) ↔ ∀ text ∈ taken found, TokenFree text}
    {alsoDecides : ∀ found, TokenFree (other found) ↔ ∀ text ∈ alsoTaken found, TokenFree text}
    (alike : ∀ found, like (render found) (other found)) :
    Agrees (Matched like) (storeStage editor render write taken decides).run
      (storeStage editor other write alsoTaken alsoDecides).run :=
  editor.agrees (storing_agrees alike write)

end FragmentStore

open FragmentStore (Matched storeStage_agrees)

variable {like : Text → Text → Prop}

section Code

variable {first second : Options}
  (blocks : ∀ language body, like (Code.renderBlock first language body)
    (Code.renderBlock second language body))
  (inline : ∀ code, like (Code.renderInline code) (Code.renderInline code))

include blocks inline

/-- The stages that store code agree under any options that render blocks alike. -/
theorem Code.stages_agree : List.Forall₂
    (fun one other => Agrees (Matched like) one.run other.run) (stages first) (stages second) := by
  refine List.rel_append ?_ (.cons ?_ (.cons ?_ .nil))
  · rw [List.forall₂_map_left_iff, List.forall₂_map_right_iff, List.forall₂_same]
    exact fun family _ => storeStage_agrees fun found => blocks _ _
  · exact storeStage_agrees inline
  · exact storeStage_agrees inline

/-- Code is stored in agreement under such options. -/
theorem Code.protect_agrees : Agrees (Matched like) (protect first) (protect second) := by
  intro store other text start
  rw [protect_eq, protect_eq]
  exact Scan.Stage.runAll_agrees (stages_agree blocks inline) store other text start

end Code

section Reflexive

variable (reflexive : ∀ text, like text text)

include reflexive

/-- Links and images are stored in agreement. -/
theorem Link.protect_agrees (preview : Bool) :
    Agrees (Matched like) (protect preview) (protect preview) := by
  intro store other text start
  rw [protect_eq, protect_eq]
  refine Scan.Stage.runAll_agrees (List.forall₂_same.mpr ?_) store other text start
  simp only [stages, List.forall_mem_cons, List.not_mem_nil, false_implies, implies_true, and_true]
  exact ⟨storeStage_agrees fun _ => reflexive _, storeStage_agrees fun _ => reflexive _,
    storeStage_agrees fun _ => reflexive _⟩

/-- Arrays are stored in agreement. -/
theorem Table.protectArrays_agrees (preview : Bool) (colors : ColorTable) :
    Agrees (Matched like) (protectArrays preview colors) (protectArrays preview colors) := by
  have stage : Agrees (Matched like) (arrayStage preview colors).run
      (arrayStage preview colors).run := storeStage_agrees fun _ => reflexive _
  exact stage

/-- Formulas are stored in agreement. -/
theorem Math.protect_agrees (colors : ColorTable) (labels : LabelRegistry) (preview : Bool) :
    Agrees (Matched like) (protect colors labels preview) (protect colors labels preview) := by
  intro store other text start
  rw [protect_eq, protect_eq]
  refine Scan.Stage.runAll_agrees (List.forall₂_same.mpr ?_) store other text start
  intro stage listed
  simp only [stages, List.mem_cons, List.mem_append, List.mem_map, List.not_mem_nil,
    or_false] at listed
  rcases listed with rfl | ⟨family, -, rfl⟩ | rfl | rfl | rfl | rfl <;>
    exact storeStage_agrees fun _ => reflexive _

end Reflexive

namespace Document

/-- A state with other options and another store. -/
def State.withStore (state : State) (options : Options) (store : FragmentStore) : State :=
  { state with options, store }

/-- States that differ at most in their options, as far as allowed, and in fragments
that are alike. -/
structure State.Alike (allowed : Options → Options → Prop) (like : Text → Text → Prop)
    (first second : State) : Prop where
  options : allowed first.options second.options
  matched : first.store.Matched like second.store
  same : first.withStore second.options second.store = second

variable {allowed : Options → Options → Prop}

/-- The passes that look at the options or at the store. -/
def storePasses : List Pass :=
  [.protectCode, .expandTitle] ++ protectionPasses ++ [.convertTheorems, .restoreFragments]

/-- All other passes do the same under any options and over any store. -/
theorem Pass.run_withStore {pass : Pass} (other : pass ∉ storePasses) (state : State)
    (options : Options) (store : FragmentStore) (text : Text) :
    pass.run (state.withStore options store) text =
      ((pass.run state text).1.withStore options store, (pass.run state text).2) := by
  cases pass with
  | protectCode | expandTitle | protectLinks | protectTables | protectArrays | protectFormulas |
      convertTheorems | restoreFragments => exact absurd (by decide) other
  | numberKeys => simp only [run, State.withStore, State.number, State.warn]
  | _ => simp only [run, State.withStore, State.warn]

/-- These passes keep states alike. -/
theorem Pass.run_alike {pass : Pass} (other : pass ∉ storePasses) :
    Agrees (State.Alike allowed like) pass.run pass.run := by
  intro first second text alike
  have kept : (pass.run first text).1.withStore first.options first.store =
      (pass.run first text).1 :=
    (congrArg Prod.fst (run_withStore other first first.options first.store text)).symm
  rw [← alike.same, run_withStore other, ← kept]
  exact ⟨⟨alike.options, alike.matched, rfl⟩, rfl⟩

/-- Storing keeps states alike when it is done in agreement. -/
theorem keepStore_alike {first second : State} (alike : State.Alike allowed like first second)
    {stored other : FragmentStore × Text}
    (agrees : stored.1.Matched like other.1 ∧ stored.2 = other.2) :
    State.Alike allowed like (first.keepStore stored).1 (second.keepStore other).1 ∧
      (first.keepStore stored).2 = (second.keepStore other).2 := by
  refine ⟨⟨alike.options, agrees.1, ?_⟩, agrees.2⟩
  rw [← alike.same]
  rfl

/-- Passes one after another agree when each does. -/
theorem runPasses_agrees {related : State → State → Prop} {passes : List Pass}
    (each : ∀ pass ∈ passes, Agrees related pass.run pass.run) :
    Agrees related (runPasses passes) (runPasses passes) := by
  intro first second text start
  induction passes generalizing first second text with
  | nil => exact ⟨start, rfl⟩
  | cons pass others inductionHypothesis =>
    rw [List.forall_mem_cons] at each
    obtain ⟨reached, written⟩ := each.1 first second text start
    simp only [runPasses, written]
    exact inductionHypothesis each.2 _ _ _ reached

end Document

end LatexMarkdown

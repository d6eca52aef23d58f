import LatexMarkdown.Code.Verbatim
import LatexMarkdown.Proofs.Editing
import LatexMarkdown.Table.Protect

/-!
# Editors

An editor finds its matches in a text and asks an answer about each, handing a
state along. It knows nothing of the state: two answers that write the same from
related states lead to related states and write the same text.
-/

namespace LatexMarkdown.Scan

/-- Two steps that, from related states, write the same and reach related
states. -/
def Agrees {σ τ α ρ : Type} (related : σ → τ → Prop) (first : σ → α → σ × ρ)
    (second : τ → α → τ × ρ) : Prop :=
  ∀ state other found, related state other →
    related (first state found).1 (second other found).1 ∧
      (first state found).2 = (second other found).2

section Related

variable {σ τ : Type} {related : σ → τ → Prop}

/-- Rules that agree everywhere lead to edits that agree. -/
theorem editFrom_agrees {first : Rule σ} {second : Rule τ}
    (rules : ∀ cursor, Agrees related (fun state text => first state cursor text)
      fun state text => second state cursor text)
    {state : σ} {other : τ} (start : related state other) (cursor : Cursor) (covered : Nat)
    (text : Text) :
    related (editFrom first state cursor covered text).1
        (editFrom second other cursor covered text).1 ∧
      (editFrom first state cursor covered text).2 =
        (editFrom second other cursor covered text).2 := by
  induction text generalizing state other cursor covered with
  | nil => simpa using start
  | cons c rest inductionHypothesis =>
    cases covered with
    | succ covered => exact inductionHypothesis start (cursor.advance c) covered
    | zero =>
      obtain ⟨reached, offered⟩ :
          related (first state cursor (c :: rest)).1 (second other cursor (c :: rest)).1 ∧
            (first state cursor (c :: rest)).2 = (second other cursor (c :: rest)).2 :=
        rules cursor state other (c :: rest) start
      simp only [editFrom]
      generalize first state cursor (c :: rest) = step at reached offered
      generalize second other cursor (c :: rest) = otherStep at reached offered
      obtain ⟨next, offer⟩ := step
      obtain ⟨otherNext, otherOffer⟩ := otherStep
      obtain rfl : offer = otherOffer := offered
      cases offer with
      | none =>
        obtain ⟨related, same⟩ := inductionHypothesis reached (cursor.advance c) 0
        exact ⟨related, congrArg (c :: ·) same⟩
      | some edit =>
        obtain ⟨related, same⟩ := inductionHypothesis reached (cursor.advance c) (edit.width - 1)
        exact ⟨related, congrArg (edit.replacement ++ ·) same⟩

/-- Steps that agree on every item agree on a list. -/
theorem mapThread_agrees {α β : Type} {first : σ → α → σ × β} {second : τ → α → τ × β}
    (agrees : Agrees related first second) :
    Agrees related (mapThread first) (mapThread second) := by
  intro state other items start
  induction items generalizing state other with
  | nil => exact ⟨start, rfl⟩
  | cons item others inductionHypothesis =>
    obtain ⟨reached, same⟩ := agrees state other item start
    obtain ⟨further, later⟩ := inductionHypothesis _ _ reached
    exact ⟨further, congrArg₂ List.cons same later⟩

/-- Answers that agree make environment rules that agree. -/
theorem environmentRule_agrees {first : Answer σ Environment} {second : Answer τ Environment}
    (agrees : Agrees related first second) (name : Text) (maxOptions required : Nat)
    (cursor : Cursor) :
    Agrees related
      (fun state text => environmentRule name maxOptions required first state cursor text)
      fun state text => environmentRule name maxOptions required second state cursor text := by
  intro state other text start
  simp only [environmentRule]
  cases readEnvironment name maxOptions required cursor text with
  | none => exact ⟨start, rfl⟩
  | some reading =>
    obtain ⟨reached, same⟩ := agrees state other reading.1 start
    exact ⟨reached, congrArg (fun answer => some (Edit.byAnswer text reading.2 answer)) same⟩

/-- Answers that agree make rules for delimited spans that agree. -/
theorem delimitedRule_agrees {first : Answer σ Text} {second : Answer τ Text}
    (agrees : Agrees related first second) (opening closing : Text) (cursor : Cursor) :
    Agrees related (fun state text => delimitedRule opening closing first state cursor text)
      fun state text => delimitedRule opening closing second state cursor text := by
  intro state other text start
  simp only [delimitedRule]
  split
  · exact ⟨start, rfl⟩
  next inside _ =>
    cases splitUnescaped? closing (cursor.advanceOver opening).escaped inside with
    | none => exact ⟨start, rfl⟩
    | some reading =>
      obtain ⟨reached, same⟩ := agrees state other reading.1 start
      exact ⟨reached, congrArg (fun answer => some (Edit.byAnswer text reading.2 answer)) same⟩

/-- Answers that agree make rules for inline math that agree. -/
theorem dollarsRule_agrees {first : σ → Text → σ × Text} {second : τ → Text → τ × Text}
    (agrees : Agrees related first second) (cursor : Cursor) :
    Agrees related (fun state text => dollarsRule first state cursor text)
      fun state text => dollarsRule second state cursor text := by
  intro state other text start
  cases text with
  | nil => exact ⟨start, rfl⟩
  | cons c inside =>
    simp only [dollarsRule]
    split
    · exact ⟨start, rfl⟩
    split
    · exact ⟨start, rfl⟩
    · exact ⟨start, rfl⟩
    next body rest _ _ =>
      obtain ⟨reached, same⟩ := agrees state other body start
      exact ⟨reached, congrArg (fun answer => some (Edit.upTo (c :: inside) rest answer)) same⟩

/-- Answers that agree make rules for inline code that agree. -/
theorem inlineRule_agrees {first : σ → Text → σ × Text} {second : τ → Text → τ × Text}
    (agrees : Agrees related first second) (name : Text) (listing : Bool) (cursor : Cursor) :
    Agrees related (fun state text => Code.inlineRule name listing first state cursor text)
      fun state text => Code.inlineRule name listing second state cursor text := by
  intro state other text start
  simp only [Code.inlineRule]
  split
  · exact ⟨start, rfl⟩
  next code rest _ =>
    obtain ⟨reached, same⟩ := agrees state other code start
    exact ⟨reached, congrArg (fun answer => some (Edit.upTo text rest answer)) same⟩

/-- Answers that agree edit a command in agreement, down to any depth. -/
theorem editCommandAt_agrees {first : Answer σ Arguments} {second : Answer τ Arguments}
    (agrees : Agrees related first second) (name : Text) (signature : Signature) (depth : Nat) :
    Agrees related (editCommandAt name signature first depth)
      (editCommandAt name signature second depth) := by
  induction depth with
  | zero => exact fun _ _ _ start => ⟨start, rfl⟩
  | succ depth inductionHypothesis =>
    intro state other text start
    refine editFrom_agrees (fun cursor state other text start => ?_) start Cursor.start 0 text
    simp only [commandRule]
    split
    · exact ⟨start, rfl⟩
    split
    · exact ⟨start, rfl⟩
    next after _ =>
      cases readArguments signature after with
      | none => exact ⟨start, rfl⟩
      | some reading =>
        obtain ⟨middle, nested⟩ :=
          mapThread_agrees inductionHypothesis state other reading.1.required start
        obtain ⟨reached, same⟩ := agrees _ _ { reading.1 with required :=
          (mapThread (editCommandAt name signature first depth) state reading.1.required).2 } middle
        simp only [← nested]
        exact ⟨reached, congrArg (fun answer => some (Edit.byAnswer text reading.2 answer)) same⟩

/-- Answers that agree edit grouped declarations in agreement, down to any depth. -/
theorem editDeclarationAt_agrees {first : Answer σ Declaration} {second : Answer τ Declaration}
    (agrees : Agrees related first second) (depth : Nat) :
    Agrees related (editDeclarationAt first depth) (editDeclarationAt second depth) := by
  induction depth with
  | zero => exact fun _ _ _ start => ⟨start, rfl⟩
  | succ depth inductionHypothesis =>
    intro state other text start
    refine editFrom_agrees (fun cursor state other text start => ?_) start Cursor.start 0 text
    simp only [declarationRule]
    split
    · exact ⟨start, rfl⟩
    split
    · exact ⟨start, rfl⟩
    next declaration after _ =>
      obtain ⟨middle, nested⟩ := inductionHypothesis state other declaration.rest start
      obtain ⟨reached, same⟩ := agrees _ _ ⟨declaration.name,
        (editDeclarationAt first depth state declaration.rest).2⟩ middle
      simp only [← nested]
      exact ⟨reached, congrArg (Option.map (Edit.upTo text after)) same⟩

/-- Answers that agree edit arrays in agreement. -/
theorem editArraysFrom_agrees {first : σ → Environment → σ × Text}
    {second : τ → Environment → τ × Text} (agrees : Agrees related first second) {state : σ}
    {other : τ} (start : related state other) (cursor : Cursor) (before pending : Text)
    (covered : Nat) (answered : Bool) (text : Text) :
    related (Table.editArraysFrom first state cursor before pending covered answered text).1
        (Table.editArraysFrom second other cursor before pending covered answered text).1 ∧
      (Table.editArraysFrom first state cursor before pending covered answered text).2 =
        (Table.editArraysFrom second other cursor before pending covered answered text).2 := by
  induction text generalizing state other cursor before pending covered answered with
  | nil => exact ⟨start, by simp [Table.editArraysFrom]⟩
  | cons c rest inductionHypothesis =>
    cases covered with
    | succ covered => exact inductionHypothesis start _ _ _ _ _
    | zero =>
      simp only [Table.editArraysFrom]
      cases readEnvironment "array".toList 1 1 cursor (c :: rest) with
      | none => exact inductionHypothesis start _ _ _ _ _
      | some reading =>
        obtain ⟨environment, after⟩ := reading
        cases place : Table.arrayPlace? before pending after with
        | none =>
          simp only [place]
          exact inductionHypothesis start _ _ _ _ _
        | some found =>
          simp only [place]
          obtain ⟨reached, same⟩ := agrees state other environment start
          obtain ⟨further, later⟩ := inductionHypothesis reached (cursor.advance c) (c :: before) []
            (rest.length - found.2.length) true
          exact ⟨further, by rw [same, later]⟩

end Related

/-- A way to edit a text by answers of one type to matches of one type. -/
structure Editor (α ρ : Type) where
  edit : {σ : Type} → (σ → α → σ × ρ) → σ → Text → σ × Text
  agrees : ∀ {σ τ : Type} {related : σ → τ → Prop} {first : σ → α → σ × ρ}
    {second : τ → α → τ × ρ}, Agrees related first second →
      Agrees related (edit first) (edit second)

namespace Editor

/-- The environments of a name. -/
def environment (name : Text) (maxOptions required : Nat) :
    Editor Environment (Option Text) where
  edit := editEnvironment name maxOptions required
  agrees := fun answers _ _ text start =>
    editFrom_agrees (environmentRule_agrees answers name maxOptions required) start Cursor.start 0
      text

/-- The spans between two delimiters. -/
def delimited (delimiters : Delimiters) : Editor Text (Option Text) where
  edit := editDelimited delimiters
  agrees := fun answers _ _ text start =>
    editFrom_agrees (delimitedRule_agrees answers delimiters.opening delimiters.closing) start
      Cursor.start 0 text

/-- Inline math between single dollars. -/
def dollars : Editor Text Text where
  edit := editDollars
  agrees := fun answers _ _ text start =>
    editFrom_agrees (dollarsRule_agrees answers) start Cursor.start 0 text

/-- The inline code of a command. -/
def inlineCode (name : Text) (listing : Bool) : Editor Text Text where
  edit := Code.editInline name listing
  agrees := fun answers _ _ text start =>
    editFrom_agrees (inlineRule_agrees answers name listing) start Cursor.start 0 text

/-- The uses of a command. -/
def command (name : Text) (signature : Signature) : Editor Arguments (Option Text) where
  edit := editCommand name signature
  agrees := fun answers state other text start =>
    editCommandAt_agrees answers name signature text.length state other text start

/-- The grouped declarations. -/
def declaration : Editor Declaration (Option Text) where
  edit := editDeclaration
  agrees := fun answers state other text start =>
    editDeclarationAt_agrees answers text.length state other text start

/-- The arrays that are formulas of their own. -/
def arrays : Editor Environment Text where
  edit := Table.editArrays
  agrees := fun answers _ _ text start =>
    editArraysFrom_agrees answers start Cursor.start [] [] 0 false text

section Notes

variable {σ α ρ : Type}

/-- What every answer keeps of the state, the whole edit keeps. -/
theorem edit_keeps (editor : Editor α ρ) (answer : σ → α → σ × ρ) {holds : σ → Prop}
    (step : ∀ state found, holds state → holds (answer state found).1) (state : σ)
    (start : holds state) (text : Text) : holds (editor.edit answer state text).1 := by
  have agrees : Agrees (fun reached other => reached = other ∧ holds reached) answer answer := by
    rintro reached _ found ⟨rfl, keeps⟩
    exact ⟨⟨rfl, step reached found keeps⟩, rfl⟩
  exact (editor.agrees agrees state state text ⟨rfl, start⟩).1.2

/-- An answer that also notes some texts for every match. -/
def noting (note : σ → α → List Text) (answer : σ → α → σ × ρ) :
    σ × List Text → α → (σ × List Text) × ρ :=
  fun (state, notes) found =>
    (((answer state found).1, notes ++ note state found), (answer state found).2)

/-- All texts that are noted while a text is edited. -/
def notes (editor : Editor α ρ) (answer : σ → α → σ × ρ) (note : σ → α → List Text) (state : σ)
    (text : Text) : List Text :=
  (editor.edit (noting note answer) (state, []) text).1.2

/-- If each answer keeps a property of the state exactly when all that is noted
is good, then so does the whole edit. -/
theorem edit_iff_notes (editor : Editor α ρ) {answer : σ → α → σ × ρ}
    {note : σ → α → List Text} {holds : σ → Prop} {good : Text → Prop}
    (step : ∀ state found, holds (answer state found).1 ↔
      holds state ∧ ∀ text ∈ note state found, good text) (state : σ) (text : Text) :
    holds (editor.edit answer state text).1 ↔
      holds state ∧ ∀ noted ∈ editor.notes answer note state text, good noted := by
  -- The run with notes reaches the same states, and its notes decide the property.
  let tracks (reached : σ) (noted : σ × List Text) : Prop :=
    reached = noted.1 ∧ (holds reached ↔ holds state ∧ ∀ text ∈ noted.2, good text)
  have agrees : Agrees tracks answer (noting note answer) := by
    rintro reached ⟨other, notes⟩ found ⟨rfl, tracked⟩
    refine ⟨⟨rfl, ?_⟩, rfl⟩
    rw [step, tracked]
    simp only [noting, List.mem_append, or_imp, forall_and, and_assoc]
  have start : tracks state (state, []) := ⟨rfl, by simp⟩
  exact (editor.agrees agrees state (state, []) text start).1.2

end Notes

end Editor

end LatexMarkdown.Scan

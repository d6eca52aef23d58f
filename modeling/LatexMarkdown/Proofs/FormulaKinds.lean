import LatexMarkdown.Proofs.Locality
import LatexMarkdown.Proofs.Taken
import LatexMarkdown.Proofs.Unescaped

/-!
# Kinds of formulas

A pass over formulas is a list of passes over one kind each: a pair of delimiters, an
environment, or single dollars. Each of them stores what one reader finds.
-/

namespace LatexMarkdown.Math

open Scan

/-- A kind of formula, told by how it opens and closes. -/
inductive Kind where
  | delimited (opening closing : Text)
  | environment (name : Text) (maxOptions required : Nat)
  | dollars
  deriving DecidableEq, Repr

namespace Kind

/-- How a formula of a kind starts. -/
def opening : Kind → Text
  | delimited opening _ => opening
  | environment name _ _ => beginMarker name
  | dollars => ['$']

/-- How a formula of a kind ends. -/
def closing : Kind → Text
  | delimited _ closing => closing
  | environment name _ _ => endMarker name
  | dollars => ['$']

/-- The text behind inline math that is not empty. -/
def afterDollars? (inside : Text) : Option Text :=
  match readDollars false inside with
  | some (_ :: _, rest) => some rest
  | _ => none

/-- The text behind the formula of a kind at the start of a text. -/
def rest? : Kind → Text → Option Text
  | delimited opening closing, text =>
    ((Text.dropFront? opening text).bind
      (splitUnescaped? closing (escapesAfter false opening))).map Prod.snd
  | environment name maxOptions required, text =>
    (readEnvironment name maxOptions required .start text).map Prod.snd
  | dollars, text => (Text.dropFront? ['$'] text).bind afterDollars?

/-- A kind whose delimiters are no end of an escape and hold no further one, and whose
arguments end by themselves. -/
def Regular : Kind → Prop
  | delimited opening closing =>
    (opening ≠ [] ∧ '\\' ∉ opening.tail) ∧ (closing ≠ [] ∧ '\\' ∉ closing.tail) ∧
      escapesAfter false opening = false
  | environment name maxOptions required => '\\' ∉ name ∧ EndsItself maxOptions required
  | dollars => True

instance : DecidablePred Regular
  | delimited .. => inferInstanceAs (Decidable (_ ∧ _))
  | environment _ maxOptions required =>
    inferInstanceAs (Decidable (_ ∧ (maxOptions = 0 ∨ required ≠ 0)))
  | dollars => isTrue trivial

/-! ## What one kind reads -/

section Reading

variable {kind : Kind} {text rest : Text}

theorem afterDollars?_eq_some {inside : Text} (read : afterDollars? inside = some rest) :
    ∃ body, body ≠ [] ∧ readDollars false inside = some (body, rest) := by
  rw [afterDollars?] at read
  split at read
  next c others _ found =>
    obtain rfl := Option.some.inj read
    exact ⟨c :: others, List.cons_ne_nil c others, found⟩
  · cases read

theorem afterDollars?_of_read {inside body : Text}
    (read : readDollars false inside = some (body, rest)) (nonempty : body ≠ []) :
    afterDollars? inside = some rest := by
  obtain ⟨c, others, rfl⟩ := List.exists_cons_of_ne_nil nonempty
  rw [afterDollars?, read]

/-- A formula is its opening, what stands inside, and its closing. -/
theorem exists_body (read : kind.rest? text = some rest) :
    ∃ body, text = kind.opening ++ (body ++ (kind.closing ++ rest)) := by
  cases kind with
  | delimited opening closing =>
    simp only [rest?, Option.map_eq_some_iff, Option.bind_eq_some_iff, Prod.exists] at read
    obtain ⟨body, last, ⟨inside, opened, closed⟩, rfl⟩ := read
    refine ⟨body, ?_⟩
    rw [Text.dropFront?_eq_some_iff.mp opened, splitUnescaped?_eq_append closed,
      List.append_assoc]
    rfl
  | environment name maxOptions required =>
    simp only [rest?, Option.map_eq_some_iff, Prod.exists] at read
    obtain ⟨environment, last, found, rfl⟩ := read
    obtain ⟨-, after, inside, rfl, argumentsRead, bodyRead, -⟩ :=
      readEnvironment_eq_some_iff.mp found
    obtain ⟨given, rfl⟩ := readArguments_suffix argumentsRead
    refine ⟨given ++ environment.body, ?_⟩
    rw [splitAtClosing_eq_append bodyRead, List.append_assoc, List.append_assoc]
    rfl
  | dollars =>
    simp only [rest?, Option.bind_eq_some_iff] at read
    obtain ⟨inside, opened, closed⟩ := read
    obtain ⟨body, -, found⟩ := afterDollars?_eq_some closed
    refine ⟨body, ?_⟩
    rw [Text.dropFront?_eq_some_iff.mp opened, readDollars_eq_append found]
    rfl

/-- A kind reads nothing where it does not open. -/
theorem rest?_eq_none (absent : ¬ kind.opening <+: text) : kind.rest? text = none := by
  cases read : kind.rest? text with
  | none => rfl
  | some rest =>
    obtain ⟨body, rfl⟩ := exists_body read
    exact absurd (List.prefix_append _ _) absent

/-- What a kind reads does not depend on what follows. -/
theorem rest?_append (regular : kind.Regular) (read : kind.rest? text = some rest)
    (behind : Text) : kind.rest? (text ++ behind) = some (rest ++ behind) := by
  cases kind with
  | delimited opening closing =>
    simp only [rest?, Option.map_eq_some_iff, Option.bind_eq_some_iff, Prod.exists] at read ⊢
    obtain ⟨body, last, ⟨inside, opened, closed⟩, rfl⟩ := read
    refine ⟨body, last ++ behind, ⟨inside ++ behind, ?_, ?_⟩, rfl⟩
    · rw [Text.dropFront?_eq_some_iff.mp opened, List.append_assoc, Text.dropFront?_append]
    · exact splitUnescaped?_append regular.2.1.1 closed behind
  | environment name maxOptions required =>
    simp only [rest?, Option.map_eq_some_iff, Prod.exists] at read ⊢
    obtain ⟨environment, last, found, rfl⟩ := read
    obtain ⟨same, later⟩ := readEnvironment_append regular.1 regular.2 found behind
    exact ⟨same, last ++ behind, later, rfl⟩
  | dollars =>
    simp only [rest?, Option.bind_eq_some_iff] at read ⊢
    obtain ⟨inside, opened, closed⟩ := read
    obtain ⟨body, nonempty, found⟩ := afterDollars?_eq_some closed
    refine ⟨inside ++ behind, ?_,
      afterDollars?_of_read (readDollars_append found behind) nonempty⟩
    rw [Text.dropFront?_eq_some_iff.mp opened, List.append_assoc, Text.dropFront?_append]

/-- A formula between delimiters ends at the first closing that is not escaped. -/
theorem nothing_behind {opening closing front behind : Text}
    (free : escapesAfter false opening = false) (frontFree : escapesAfter false front = false)
    (read : (delimited opening closing).rest? (opening ++ (front ++ (closing ++ behind))) =
      some []) : behind = [] := by
  simp only [rest?, Text.dropFront?_append, Option.bind_some, Option.map_eq_some_iff, Prod.exists,
    free] at read
  obtain ⟨body, _, closed, rfl⟩ := read
  have whole := splitUnescaped?_eq_append closed
  rw [List.append_nil] at whole
  by_contra more
  have longer := congrArg List.length whole
  have filled := List.length_pos_iff.mpr more
  simp only [List.length_append] at longer
  obtain ⟨tail, rfl⟩ := List.prefix_of_prefix_length_le (List.prefix_append front _)
    (whole ▸ List.prefix_append body closing) (by omega)
  have later : closing ++ behind = tail ++ closing := by
    rw [List.append_assoc, List.append_right_inj] at whole
    exact whole
  have nonempty : tail ≠ [] := by
    rintro rfl
    simp only [List.append_nil] at longer
    omega
  refine (splitUnescaped?_passes closed).behind frontFree nonempty ?_
  rw [List.append_nil, ← later]
  exact List.prefix_append closing behind

/-- Where an environment is read does not matter, as long as nothing escapes it. -/
theorem rest?_environment {name : Text} {maxOptions required : Nat} {cursor : Cursor}
    (free : cursor.escaped = false) :
    (environment name maxOptions required).rest? text =
      (readEnvironment name maxOptions required cursor text).map Prod.snd := by
  simp only [rest?, readEnvironment, free, Cursor.start, Bool.false_eq_true, if_false]
  cases Text.dropFront? (beginMarker name) text with
  | none => rfl
  | some after =>
    simp only [Option.bind_eq_bind, Option.bind_some]
    cases readArguments ⟨false, maxOptions, required⟩ after with
    | none => rfl
    | some arguments =>
      simp only [Option.bind_some]
      cases readBody name arguments.2 <;> rfl

/-- No environment is read at an escaped position, or where its kind reads nothing. -/
theorem readEnvironment_of_unread {name : Text} {maxOptions required : Nat} {cursor : Cursor}
    (unread : cursor.escaped = true ∨ (environment name maxOptions required).rest? text = none) :
    readEnvironment name maxOptions required cursor text = none := by
  cases escaped : cursor.escaped with
  | true => exact readEnvironment_escaped escaped text
  | false =>
    rw [escaped, rest?_environment escaped] at unread
    exact Option.map_eq_none_iff.mp (unread.resolve_left Bool.false_ne_true)

end Reading

/-! ## What one pass stores -/

/-- An answer that writes a token for everything. -/
def Tokenizes {σ α ρ : Type} (answer : σ → α → σ × ρ) (write : Text → ρ) : Prop :=
  ∀ state found, ∃ next index, answer state found = (next, write (Fragment.token index))

section Rules

variable {σ : Type}

theorem delimitedRule_stores (opening closing : Text) {answer : Answer σ Text}
    (tokenizes : Tokenizes answer some) :
    (delimitedRule opening closing answer).Stores (delimited opening closing).rest? := by
  constructor
  · rintro state cursor text (escaped | unread)
    · rw [delimitedRule, escaped]
      rfl
    · simp only [rest?, Option.map_eq_none_iff] at unread
      rw [delimitedRule]
      cases escaped : cursor.escaped with
      | true => rfl
      | false =>
        simp only [Bool.false_eq_true, if_false, Cursor.advanceOver_escaped_eq, escaped]
        cases opened : Text.dropFront? opening text with
        | none => rfl
        | some inside =>
          rw [opened, Option.bind_some] at unread
          simp only [unread]
  · intro state cursor text rest free read
    simp only [rest?, Option.map_eq_some_iff, Option.bind_eq_some_iff, Prod.exists] at read
    obtain ⟨body, last, ⟨inside, opened, closed⟩, rfl⟩ := read
    obtain ⟨next, index, answered⟩ := tokenizes state body
    refine ⟨next, index, ?_⟩
    simp only [delimitedRule, free, Bool.false_eq_true, if_false, Cursor.advanceOver_escaped_eq,
      opened, closed, answered, byAnswer_some]

theorem stepwiseRule_stores {name : Text} {maxOptions required : Nat}
    {answer : Answer σ Environment} (tokenizes : Tokenizes answer some) :
    (stepwiseRule name maxOptions required answer).Stores
      (environment name maxOptions required).rest? := by
  constructor
  · intro state cursor text unread
    rw [stepwiseRule, readEnvironment_of_unread unread]
  · intro state cursor text rest free read
    rw [rest?_environment free, Option.map_eq_some_iff] at read
    obtain ⟨⟨found, last⟩, read, rfl⟩ := read
    obtain ⟨next, index, answered⟩ := tokenizes state found
    exact ⟨next, index, by simp only [stepwiseRule, read, answered, byAnswer_some]⟩

theorem dollarsRule_stores {answer : σ → Text → σ × Text} (tokenizes : Tokenizes answer id) :
    (dollarsRule answer).Stores dollars.rest? := by
  constructor
  · rintro state cursor text (escaped | unread)
    · cases text with
      | nil => rfl
      | cons c inside => rw [dollarsRule, escaped]; rfl
    · cases text with
      | nil => rfl
      | cons c inside =>
        simp only [dollarsRule]
        split
        · rfl
        next shown =>
          rw [Bool.or_eq_true, not_or, decide_eq_true_eq, not_not] at shown
          obtain ⟨-, rfl⟩ := shown
          rw [rest?, Text.dropFront?, if_pos rfl, Text.dropFront?, Option.bind_some,
            afterDollars?] at unread
          split
          · rfl
          · rfl
          next body rest filled found =>
            obtain ⟨c, others, rfl⟩ := List.exists_cons_of_ne_nil fun empty => filled empty
            rw [found] at unread
            cases unread
  · intro state cursor text rest free read
    simp only [rest?, Option.bind_eq_some_iff] at read
    obtain ⟨inside, opened, closed⟩ := read
    obtain ⟨body, nonempty, found⟩ := afterDollars?_eq_some closed
    obtain ⟨c, others, rfl⟩ := List.exists_cons_of_ne_nil nonempty
    obtain ⟨next, index, answered⟩ := tokenizes state (c :: others)
    rw [Text.dropFront?_eq_some_iff.mp opened]
    refine ⟨next, index, ?_⟩
    simp only [dollarsRule, List.cons_append, List.nil_append, free, found, answered, ne_eq,
      not_true_eq_false, decide_false, Bool.or_false, Bool.false_eq_true, if_false]
    rfl

end Rules

end Kind

/-! ## The kinds of a document -/

/-- The kinds of formulas, in the order in which they are stored. -/
def kinds : List Kind :=
  .delimited "\\[".toList "\\]".toList ::
    (families.map (fun family => .environment family.name.toList 0 family.required) ++
      [.delimited "$$".toList "$$".toList, .delimited "\\(".toList "\\)".toList,
        .environment "math".toList 0 0, .dollars])

theorem regular_of_mem {kind : Kind} (listed : kind ∈ kinds) : kind.Regular := by
  have all : ∀ kind ∈ kinds, kind.Regular := by decide
  exact all kind listed

theorem tokenizes_storing {α ρ : Type} (render : α → Text) (write : Text → ρ) :
    Kind.Tokenizes (FragmentStore.storing render fun _ token => write token) write :=
  fun store found => ⟨(store.push (render found)).1, store.size, rfl⟩

/-- The stages that store formulas are one stage for each kind. -/
theorem stages_kinds (colors : ColorTable) (labels : LabelRegistry) (preview : Bool) :
    List.Forall₂ (fun (kind : Kind) (stage : FragmentStore.StoreStage) =>
        ∃ rule : Rule FragmentStore, rule.Stores kind.rest? ∧ stage.run = edit rule)
      kinds (stages colors labels preview) := by
  have delimited (delimiters : Delimiters) (render : Text → Text) :
      ∃ rule : Rule FragmentStore,
        rule.Stores (Kind.delimited delimiters.opening delimiters.closing).rest? ∧
          editDelimited delimiters (FragmentStore.storing render fun _ token => some token) =
            edit rule :=
    ⟨_, Kind.delimitedRule_stores _ _ (tokenizes_storing render some), rfl⟩
  have environment {name : Text} (bare : '\\' ∉ name) (required : Nat)
      (render : Environment → Text) :
      ∃ rule : Rule FragmentStore, rule.Stores (Kind.environment name 0 required).rest? ∧
        editEnvironment name 0 required
          (FragmentStore.storing render fun _ token => some token) = edit rule :=
    ⟨_, Kind.stepwiseRule_stores (tokenizes_storing render some),
      funext fun store => funext fun text => editFrom_environmentRule bare store .start 0 text⟩
  have bare : ∀ family ∈ families, '\\' ∉ family.name.toList := by decide
  refine .cons (delimited brackets _) ?_
  refine List.rel_append ?_ ?_
  · rw [← List.attach_map_val, List.forall₂_map_left_iff, List.forall₂_map_right_iff,
      List.forall₂_same]
    exact fun family _ => environment (bare family.1 family.2) family.1.required _
  · exact .cons (delimited doubleDollars _) (.cons (delimited parentheses _)
      (.cons (environment (by decide) 0 _)
        (.cons ⟨_, Kind.dollarsRule_stores (tokenizes_storing _ id), rfl⟩ .nil)))

end LatexMarkdown.Math

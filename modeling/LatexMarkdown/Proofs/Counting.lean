import LatexMarkdown.Proofs.Editing
import LatexMarkdown.Scan.Declaration
import LatexMarkdown.Scan.Enclosed
import Mathlib.Algebra.GroupWithZero.Nat

/-!
# Counting a character through an edit

What a reader reads and what it leaves share the occurrences of a character
among them. An edit whose every step writes no more of them than it covers ends
with no more than it started with; what a step keeps in its state is charged.
-/

namespace LatexMarkdown.Scan

/-! ## Readers -/

theorem dropFront?_suffix {front text rest : Text}
    (found : Text.dropFront? front text = some rest) : rest <:+ text := by
  rw [Text.dropFront?_eq_some_iff.mp found]
  exact List.suffix_append front rest

theorem afterOneOf?_suffix {words : List Text} {text rest : Text}
    (found : afterOneOf? words text = some rest) : rest <:+ text := by
  obtain ⟨word, -, dropped⟩ := List.exists_of_findSome?_eq_some found
  exact dropFront?_suffix dropped

/-- What stands between an opening character and the first closing one leaves a
suffix. -/
theorem readEnclosed_suffix {opening closing : Char} {text inner rest : Text}
    (read : readEnclosed opening closing text = some (inner, rest)) : rest <:+ text := by
  cases text with
  | nil => simp [readEnclosed] at read
  | cons c inside =>
    simp only [readEnclosed] at read
    split at read
    · split at read
      next first after found =>
        simp only [Option.some.injEq, Prod.mk.injEq] at read
        have dropped : first :: after <:+ inside := found ▸ List.dropWhile_suffix _
        exact read.2 ▸ suffix_cons_of_suffix ((List.suffix_cons first after).trans dropped)
      · simp at read
    · simp at read

theorem skipEnclosed_suffix (opening closing : Char) (text : Text) :
    skipEnclosed opening closing text <:+ text := by
  rw [skipEnclosed]
  split
  next inner rest read => exact (readEnclosed_suffix read).trans (List.dropWhile_suffix _)
  · exact List.suffix_refl text

/-! ## What is read and what is left -/

section Count

variable {c : Char}

/-- How often a character occurs in the texts of a list. -/
def countAll (c : Char) (texts : List Text) : Nat :=
  (texts.map (List.count c)).sum

@[simp] theorem countAll_nil : countAll c [] = 0 :=
  rfl

@[simp] theorem countAll_cons (first : Text) (others : List Text) :
    countAll c (first :: others) = first.count c + countAll c others :=
  rfl

theorem countAll_append (first second : List Text) :
    countAll c (first ++ second) = countAll c first + countAll c second := by
  rw [countAll, List.map_append, List.sum_append]
  rfl

theorem countAll_le_of_sublist {part texts : List Text} (sublist : part.Sublist texts) :
    countAll c part ≤ countAll c texts := by
  induction sublist with
  | slnil => exact Nat.le_refl _
  | cons text _ inductionHypothesis =>
    rw [countAll_cons]
    omega
  | cons_cons text _ inductionHypothesis =>
    rw [countAll_cons, countAll_cons]
    omega

theorem count_le_countAll {texts : List Text} {text : Text} (member : text ∈ texts) :
    text.count c ≤ countAll c texts := by
  obtain ⟨before, after, rfl⟩ := List.append_of_mem member
  simp only [countAll, List.map_append, List.map_cons, List.sum_append, List.sum_cons]
  omega

theorem count_le_of_suffix {rest text : Text} (suffix : rest <:+ text) :
    rest.count c ≤ text.count c :=
  suffix.sublist.count_le c

/-- How often a character occurs in the arguments of a command. -/
def Arguments.count (arguments : Arguments) (c : Char) : Nat :=
  countAll c arguments.options + countAll c arguments.required

theorem Arguments.count_argument_le (arguments : Arguments) (index : Nat) :
    (arguments.argument index).count c ≤ countAll c arguments.required := by
  rw [argument, List.getD_eq_getElem?_getD]
  cases given : arguments.required[index]? with
  | none => exact Nat.zero_le _
  | some text => exact count_le_countAll (List.mem_of_getElem? given)

/-- The first two arguments have their occurrences apart. -/
theorem Arguments.count_pair_le (arguments : Arguments) :
    (arguments.argument 0).count c + (arguments.argument 1).count c ≤
      countAll c arguments.required := by
  obtain ⟨starred, options, required⟩ := arguments
  match required with
  | [] => exact Nat.le_refl 0
  | [only] => simp [argument]
  | first :: second :: others =>
    simp only [argument, List.getD_cons_zero, List.getD_cons_succ, countAll_cons]
    omega

/-- The piece that spells groups has at least the occurrences in them. -/
theorem SpellsGroups.countAll_le {opening closing : Char} {groups : List Text} {piece : Text}
    (spells : SpellsGroups opening closing groups piece) : countAll c groups ≤ piece.count c := by
  induction spells with
  | none => exact Nat.le_refl _
  | cons _ _ inductionHypothesis =>
    simp only [countAll_cons, List.count_append, List.count_cons]
    omega

theorem readArguments_count {signature : Signature} {text rest : Text} {arguments : Arguments}
    (read : readArguments signature text = some (arguments, rest)) :
    arguments.count c + rest.count c ≤ text.count c := by
  obtain ⟨options, required, spellsOptions, spellsRequired, rfl⟩ := readArguments_split read
  have first := spellsOptions.countAll_le (c := c)
  have second := spellsRequired.countAll_le (c := c)
  simp only [Arguments.count, List.count_append]
  omega

/-- A command is its backslash and its name, then what follows. -/
theorem afterCommand?_eq_append {name text after : Text}
    (found : afterCommand? name text = some after) : text = '\\' :: (name ++ after) := by
  cases text with
  | nil => simp [afterCommand?] at found
  | cons c rest =>
    simp only [afterCommand?] at found
    split at found
    next backslash =>
      split at found
      next behind named =>
        split at found
        · simp at found
        · rw [backslash, Text.dropFront?_eq_some_iff.mp named, Option.some.inj found]
      · simp at found
    · simp at found

/-- The markers, the arguments, the body and the rest of an environment have
their occurrences apart. -/
theorem readEnvironment_count {name : Text} {maxOptions required : Nat} {cursor : Cursor}
    {text rest : Text} {environment : Environment}
    (read : readEnvironment name maxOptions required cursor text = some (environment, rest)) :
    (beginMarker name).count c + environment.arguments.count c + environment.body.count c +
      (endMarker name).count c + rest.count c ≤ text.count c := by
  obtain ⟨-, after, inside, rfl, argumentsRead, bodyRead, -⟩ := readEnvironment_eq_some_iff.mp read
  have first := readArguments_count (c := c) argumentsRead
  rw [splitAtClosing_eq_append bodyRead] at first
  simp only [List.count_append] at first ⊢
  omega

/-! ## Edits -/

/-- A text once the edit that is offered at its start is made. -/
def Edit.applied (text : Text) : Option Edit → Text
  | none => text
  | some edit => edit.replacement ++ text.drop edit.width

theorem Edit.applied_upTo {text rest : Text} (suffix : rest <:+ text) (replacement : Text) :
    Edit.applied text (some (Edit.upTo text rest replacement)) = replacement ++ rest := by
  obtain ⟨matched, rfl⟩ := suffix
  simp [applied, upTo]

/-- A match without an answer stays as it is. -/
theorem Edit.applied_byAnswer_none {text rest : Text} (suffix : rest <:+ text) :
    Edit.applied text (some (Edit.byAnswer text rest none)) = text := by
  obtain ⟨matched, rfl⟩ := suffix
  rw [byAnswer_none, applied_upTo (List.suffix_append matched rest)]

/-- An edit whose every step keeps a property of the state, and writes together
with the charge on the state no more of a character than it covers, does so as
a whole. -/
theorem editFrom_count {σ : Type} {rule : Rule σ} (holds : σ → Prop) (charge : σ → Nat)
    {text : Text}
    (step : ∀ state cursor suffix, suffix <:+ text → suffix ≠ [] → holds state →
      holds (rule state cursor suffix).1 ∧
        charge (rule state cursor suffix).1 +
            (Edit.applied suffix (rule state cursor suffix).2).count c ≤
          charge state + suffix.count c)
    (state : σ) (start : holds state) (cursor : Cursor) (covered : Nat) :
    holds (editFrom rule state cursor covered text).1 ∧
      charge (editFrom rule state cursor covered text).1 +
          (editFrom rule state cursor covered text).2.count c ≤
        charge state + (text.drop covered).count c := by
  induction text generalizing state cursor covered with
  | nil => simpa using start
  | cons d rest inductionHypothesis =>
    have later := fun state cursor suffix within =>
      step state cursor suffix (suffix_cons_of_suffix within)
    cases covered with
    | succ covered => exact inductionHypothesis later _ start (cursor.advance d) covered
    | zero =>
      obtain ⟨kept, bound⟩ := step state cursor (d :: rest) (List.suffix_refl _) (by simp) start
      rw [editFrom, List.drop_zero]
      generalize rule state cursor (d :: rest) = offered at kept bound
      obtain ⟨next, offer⟩ := offered
      cases offer with
      | none =>
        obtain ⟨reached, rest_bound⟩ := inductionHypothesis later _ kept (cursor.advance d) 0
        refine ⟨reached, ?_⟩
        simp only [Edit.applied, List.drop_zero] at bound rest_bound
        simp only [List.count_cons] at bound ⊢
        omega
      | some edit =>
        obtain ⟨reached, rest_bound⟩ :=
          inductionHypothesis later _ kept (cursor.advance d) (edit.width - 1)
        refine ⟨reached, ?_⟩
        have passed : (rest.drop (edit.width - 1)).count c ≤
            ((d :: rest).drop edit.width).count c := by
          cases edit.width with
          | zero => exact count_le_of_suffix (List.suffix_cons d rest)
          | succ width => exact Nat.le_refl _
        simp only [Edit.applied, List.count_append] at bound rest_bound ⊢
        omega

/-- An edit whose every step writes no more of a character than it covers does so
as a whole. -/
theorem edit_count {σ : Type} {rule : Rule σ} {text : Text}
    (step : ∀ state cursor suffix, suffix <:+ text →
      (Edit.applied suffix (rule state cursor suffix).2).count c ≤ suffix.count c) (state : σ) :
    (edit rule state text).2.count c ≤ text.count c := by
  have whole := (editFrom_count (c := c) (fun _ : σ => True) (fun _ => 0)
    (fun state cursor suffix within _ _ =>
      ⟨trivial, by simpa using step state cursor suffix within⟩)
    state trivial Cursor.start 0).2
  simpa [edit] using whole

/-- An edit that looks only ahead, whose every offer writes no more of a
character than it covers, writes no more of it than the text has. -/
theorem editAhead_count {ahead : Text → Option Edit} {text : Text}
    (step : ∀ suffix, suffix <:+ text →
      (Edit.applied suffix (ahead suffix)).count c ≤ suffix.count c) :
    (editAhead ahead text).count c ≤ text.count c := by
  exact edit_count (fun _ _ suffix within => step suffix within) ()

/-- A reader whose replacements hold no more of a character than what they
replace brings in none. -/
theorem substitute_count {read : Text → Option (Text × Text)}
    (step : ∀ suffix replacement rest, read suffix = some (replacement, rest) →
      rest <:+ suffix ∧ replacement.count c + rest.count c ≤ suffix.count c) (text : Text) :
    (substitute read text).count c ≤ text.count c := by
  refine editAhead_count fun suffix _ => ?_
  cases reading : read suffix with
  | none => exact Nat.le_refl _
  | some pair =>
    obtain ⟨within, bound⟩ := step suffix pair.1 pair.2 reading
    rw [Option.map_some, Edit.applied_upTo within, List.count_append]
    exact bound

theorem replaceAll_count {pattern replacement : Text}
    (fewer : replacement.count c ≤ pattern.count c) (text : Text) :
    (replaceAll pattern replacement text).count c ≤ text.count c := by
  refine editAhead_count fun suffix _ => ?_
  cases found : Text.dropFront? pattern suffix with
  | none => exact Nat.le_refl _
  | some rest =>
    rw [Text.dropFront?_eq_some_iff.mp found]
    simp only [Option.map_some, Edit.applied, List.drop_left, List.count_append]
    omega

/-- A step that writes no more than it is charged does so over a list. -/
theorem mapThread_count {σ : Type} {charge : σ → Nat} {step : σ → Text → σ × Text}
    (bound : ∀ state text,
      charge (step state text).1 + (step state text).2.count c ≤ charge state + text.count c)
    (state : σ) (texts : List Text) :
    charge (mapThread step state texts).1 + countAll c (mapThread step state texts).2 ≤
      charge state + countAll c texts := by
  induction texts generalizing state with
  | nil => exact Nat.le_refl _
  | cons first others inductionHypothesis =>
    have here := bound state first
    have later := inductionHypothesis (step state first).1
    simp only [mapThread, countAll_cons]
    omega

/-- A command whose answers hold no more of a character than its arguments
brings in none. -/
theorem editCommand_count {σ : Type} (charge : σ → Nat) (answer : Answer σ Arguments)
    (answers : ∀ state arguments, ∃ next text, answer state arguments = (next, some text) ∧
      charge next + text.count c ≤ charge state + arguments.count c)
    (name : Text) (signature : Signature) (state : σ) (text : Text) :
    charge (editCommand name signature answer state text).1 +
        (editCommand name signature answer state text).2.count c ≤
      charge state + text.count c := by
  have atDepth : ∀ depth state text,
      charge (editCommandAt name signature answer depth state text).1 +
          (editCommandAt name signature answer depth state text).2.count c ≤
        charge state + text.count c := by
    intro depth
    induction depth with
    | zero => exact fun _ _ => Nat.le_refl _
    | succ depth inductionHypothesis =>
      intro state text
      refine (editFrom_count (fun _ => True) charge (fun state cursor suffix _ _ _ =>
        ⟨trivial, ?_⟩) state trivial Cursor.start 0).2
      rw [commandRule]
      split
      · exact Nat.le_refl _
      split
      · exact Nat.le_refl _
      next after found =>
        have within : after <:+ suffix := by
          rw [afterCommand?_eq_append found]
          exact suffix_cons_of_suffix (List.suffix_append name after)
        split
        · rw [Edit.applied_byAnswer_none within]
        next arguments rest read =>
          have nested := mapThread_count (c := c) inductionHypothesis state arguments.required
          obtain ⟨next, replacement, answered, bound⟩ := answers
            (mapThread (editCommandAt name signature answer depth) state arguments.required).1
            { arguments with required := (mapThread (editCommandAt name signature answer depth)
                state arguments.required).2 }
          have reading := readArguments_count (c := c) read
          have opened := count_le_of_suffix (c := c) within
          simp only [answered, byAnswer_some]
          rw [Edit.applied_upTo ((readArguments_suffix read).trans within), List.count_append]
          simp only [Arguments.count] at bound reading
          omega
  exact atDepth text.length state text

/-- A command without state whose answers hold no more of a character than its
arguments brings in none. -/
theorem replaceCommand_count {answer : Arguments → Option Text}
    (answers : ∀ arguments, ∃ text, answer arguments = some text ∧
      text.count c ≤ arguments.count c)
    (name : Text) (signature : Signature) (text : Text) :
    (replaceCommand name signature answer text).count c ≤ text.count c := by
  have whole := editCommand_count (c := c) (fun _ : Unit => 0) _ (fun _ arguments => by
    obtain ⟨text, answered, bound⟩ := answers arguments
    exact ⟨(), text, congrArg (Prod.mk ()) answered, by omega⟩) name signature () text
  simpa [replaceCommand] using whole

/-- A declaration is read from a group that holds its name and what it acts
on. -/
theorem readDeclaration_count {text after : Text} {declaration : Declaration}
    (read : readDeclaration text = some (declaration, after)) :
    after <:+ text ∧ declaration.rest.count c + after.count c ≤ text.count c := by
  unfold readDeclaration at read
  split at read
  · simp at read
  · split at read
    · split at read
      · simp at read
      · split at read
        · simp only [Option.bind_eq_bind, Option.bind_eq_some_iff, Option.some.injEq,
            Prod.mk.injEq, Prod.exists] at read
          obtain ⟨inner, rest, group, rfl, rfl⟩ := read
          refine ⟨readBraced_suffix group, ?_⟩
          have inside : ((Text.skipGap inner).tail.dropWhile Char.isAlpha).count c ≤
              inner.count c :=
            count_le_of_suffix ((List.dropWhile_suffix _).trans
              ((List.tail_suffix _).trans (skipGap_suffix inner)))
          rw [readBraced_eq_append group]
          simp only [List.count_cons, List.count_append]
          omega
        · simp at read
    · simp at read

/-- Declarations whose answers hold no more of a character than what they act
on bring in none. -/
theorem replaceDeclaration_count {answer : Declaration → Option Text}
    (answers : ∀ declaration text, answer declaration = some text →
      text.count c ≤ declaration.rest.count c) (text : Text) :
    (replaceDeclaration answer text).count c ≤ text.count c := by
  let reply : Answer Unit Declaration := fun _ declaration => ((), answer declaration)
  have atDepth : ∀ depth text,
      (editDeclarationAt reply depth () text).2.count c ≤ text.count c := by
    intro depth
    induction depth with
    | zero => exact fun _ => Nat.le_refl _
    | succ depth inductionHypothesis =>
      intro text
      refine edit_count (fun state cursor suffix _ => ?_) ()
      rw [declarationRule]
      split
      · exact Nat.le_refl _
      split
      · exact Nat.le_refl _
      next declaration after read =>
        obtain ⟨within, bound⟩ := readDeclaration_count (c := c) read
        have nested := inductionHypothesis declaration.rest
        cases answered : answer ⟨declaration.name,
          (editDeclarationAt reply depth () declaration.rest).2⟩ with
        | none => simp [reply, answered, Edit.applied]
        | some replacement =>
          have written := answers _ _ answered
          simp only [reply, answered, Option.map_some]
          rw [Edit.applied_upTo within, List.count_append]
          simp only at written
          omega
  exact atDepth text.length text

end Count

end LatexMarkdown.Scan

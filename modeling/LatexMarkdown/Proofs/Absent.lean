import LatexMarkdown.Code.Comment
import LatexMarkdown.Proofs.Token
import LatexMarkdown.Scan.Enclosed

/-!
# Scanning a text without a pattern

A command, an environment or a delimiter that a text does not spell anywhere is
not found in it, whatever other commands the text holds.
-/

namespace LatexMarkdown

namespace Scan

section Rules

variable {σ : Type} {text pattern : Text}

/-- A rule offers edits only where a pattern starts, and only there changes its
state. -/
def Rule.StartsAt (rule : Rule σ) (pattern : Text) : Prop :=
  ∀ state cursor suffix, ¬ pattern <+: suffix → rule state cursor suffix = (state, none)

/-- A text in which the pattern does not occur is left as it is. -/
theorem Rule.StartsAt.edit_eq {rule : Rule σ} (starts : rule.StartsAt pattern)
    (absent : ¬ pattern <:+: text) (state : σ) : edit rule state text = (state, text) :=
  edit_of_silent_within fun cursor suffix within _ =>
    starts state cursor suffix fun start => absent (start.isInfix.trans within.isInfix)

/-- No command is read where it is not spelled. -/
theorem afterCommand?_of_absent {name : Text} (absent : ¬ ('\\' :: name) <+: text) :
    afterCommand? name text = none := by
  cases text with
  | nil => rfl
  | cons c rest =>
    rw [afterCommand?]
    split
    next backslash =>
      subst backslash
      rw [List.cons_prefix_cons, eq_self, true_and] at absent
      rw [Text.dropFront?_eq_none_iff.mpr absent]
    · rfl

theorem commandRule_startsAt (name : Text) (signature : Signature)
    (nested : σ → Text → σ × Text) (answer : Answer σ Arguments) :
    (commandRule name signature nested answer).StartsAt ('\\' :: name) := by
  intro state cursor suffix absent
  simp only [commandRule, afterCommand?_of_absent absent, ite_self]

theorem environmentRule_startsAt (name : Text) (maxOptions required : Nat)
    (answer : Answer σ Environment) :
    (environmentRule name maxOptions required answer).StartsAt (beginMarker name) := by
  intro state cursor suffix absent
  simp only [environmentRule, readEnvironment_unopened cursor absent,
    Text.dropFront?_eq_none_iff.mpr absent, Option.map_none]

theorem delimitedRule_startsAt (opening closing : Text) (answer : Answer σ Text) :
    (delimitedRule opening closing answer).StartsAt opening := by
  intro state cursor suffix absent
  simp only [delimitedRule, Text.dropFront?_eq_none_iff.mpr absent, ite_self]

/-- Inline math between dollars starts only at a dollar that no backslash escapes. -/
theorem dollarsRule_silent {answer : σ → Text → σ × Text} {cursor : Cursor} {c : Char}
    (unopened : cursor.escaped = true ∨ c ≠ '$') (state : σ) (rest : Text) :
    dollarsRule answer state cursor (c :: rest) = (state, none) := by
  rw [dollarsRule, if_pos]
  simpa using unopened

theorem dollarsRule_startsAt (answer : σ → Text → σ × Text) :
    (dollarsRule answer).StartsAt ['$'] := by
  intro state cursor suffix absent
  cases suffix with
  | nil => rfl
  | cons c inside =>
    refine dollarsRule_silent (.inr fun same => ?_) state inside
    exact absent (List.cons_prefix_cons.mpr ⟨same.symm, List.nil_prefix⟩)

/-- A text without a command has no use of it, however deep it is looked for. -/
theorem editCommandAt_of_absent {name : Text} (absent : ¬ ('\\' :: name) <:+: text)
    (signature : Signature) (answer : Answer σ Arguments) (depth : Nat) (state : σ) :
    editCommandAt name signature answer depth state text = (state, text) := by
  cases depth with
  | zero => rfl
  | succ depth => exact (commandRule_startsAt name signature _ answer).edit_eq absent state

/-- A text without a command has no use of it. -/
theorem editCommand_of_absent {name : Text} (absent : ¬ ('\\' :: name) <:+: text)
    (signature : Signature) (answer : Answer σ Arguments) (state : σ) :
    editCommand name signature answer state text = (state, text) :=
  editCommandAt_of_absent absent signature answer text.length state

/-- A text without a command has no use of it. -/
theorem replaceCommand_of_absent {name : Text} (absent : ¬ ('\\' :: name) <:+: text)
    (signature : Signature) (answer : Arguments → Option Text) :
    replaceCommand name signature answer text = text := by
  rw [replaceCommand, editCommand_of_absent absent]

/-- A text without a control word has nothing to replace. -/
theorem replaceControlWord_of_absent {name : Text} (absent : ¬ ('\\' :: name) <:+: text)
    (replacement : Text) : replaceControlWord name replacement text = text := by
  rw [replaceControlWord, Rule.StartsAt.edit_eq _ absent]
  intro state cursor suffix unstarted
  simp only [afterCommand?_of_absent unstarted, Option.map_none, ite_self]

/-- A text without the opening marker has no environment of that name. -/
theorem editEnvironment_of_absent {name : Text} (absent : ¬ beginMarker name <:+: text)
    (maxOptions required : Nat) (answer : Answer σ Environment) (state : σ) :
    editEnvironment name maxOptions required answer state text = (state, text) :=
  (environmentRule_startsAt name maxOptions required answer).edit_eq absent state

/-- A text without the opening marker has no environment of that name. -/
theorem replaceEnvironment_of_absent {name : Text} (absent : ¬ beginMarker name <:+: text)
    (maxOptions required : Nat) (answer : Environment → Option Text) :
    replaceEnvironment name maxOptions required answer text = text := by
  rw [replaceEnvironment, editEnvironment_of_absent absent]

/-- A text without the opening delimiter has no span. -/
theorem editDelimited_of_absent {delimiters : Delimiters}
    (absent : ¬ delimiters.opening <:+: text) (answer : Answer σ Text) (state : σ) :
    editDelimited delimiters answer state text = (state, text) :=
  (delimitedRule_startsAt delimiters.opening delimiters.closing answer).edit_eq absent state

/-- A text without dollars has no formula between them. -/
theorem editDollars_of_absent (absent : '$' ∉ text) (answer : σ → Text → σ × Text) (state : σ) :
    editDollars answer state text = (state, text) :=
  (dollarsRule_startsAt answer).edit_eq (Text.not_infix_of_not_mem absent) state

end Rules

section Ahead

variable {text pattern : Text}

/-- A pattern that does not occur in a text is replaced nowhere. -/
theorem replaceAll_of_absent (absent : ¬ pattern <:+: text) (replacement : Text) :
    replaceAll pattern replacement text = text :=
  editAhead_of_silent fun suffix within _ => by
    rw [Text.dropFront?_eq_none_iff.mpr fun start => absent (start.isInfix.trans within.isInfix),
      Option.map_none]

end Ahead

end Scan

/-- A line in which no code block starts loses its comment. -/
theorem Code.stripCommentLines_unfenced {line : Text}
    (unfenced : ∀ fence ∈ fences, ¬ fence.1 <:+: line) (others : List Text) :
    stripCommentLines none (line :: others) =
      beforeComment 0 line :: stripCommentLines none others := by
  rw [stripCommentLines]
  split
  next opening closing found =>
    have contained := List.find?_some found
    exact absurd (Text.contains_iff.mp contained) (unfenced _ (List.mem_of_find?_eq_some found))
  · rfl

end LatexMarkdown

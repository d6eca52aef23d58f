import LatexMarkdown.Proofs.Absent
import LatexMarkdown.Scan.Declaration

/-!
# Scanning a text without a backslash

Commands, environments and declarations are spelled with a backslash. A text
without one spells none of them and is left as it is, whatever else it holds.
-/

namespace LatexMarkdown

namespace Scan

variable {σ : Type} {text : Text}

/-- A rule offers edits only where a backslash stands, and only there changes
its state. -/
def Rule.StartsAtBackslash (rule : Rule σ) : Prop :=
  ∀ state cursor c rest, c ≠ '\\' → rule state cursor (c :: rest) = (state, none)

/-- A text without a backslash is left as it is. -/
theorem Rule.StartsAtBackslash.edit_eq {rule : Rule σ} (starts : rule.StartsAtBackslash)
    (plain : '\\' ∉ text) (state : σ) : edit rule state text = (state, text) := by
  refine edit_of_silent_within fun cursor suffix within nonempty => ?_
  obtain ⟨c, rest, rfl⟩ := List.exists_cons_of_ne_nil nonempty
  refine starts state cursor c rest ?_
  rintro rfl
  exact plain (within.subset (List.mem_cons_self ..))

/-- A front that starts with a backslash starts nowhere else. -/
theorem dropFront?_backslash {c : Char} (front rest : Text) (different : c ≠ '\\') :
    Text.dropFront? ('\\' :: front) (c :: rest) = none := by
  rw [Text.dropFront?, if_neg different.symm]

/-- No command is read where no backslash stands. -/
theorem afterCommand?_of_ne {name rest : Text} {c : Char} (different : c ≠ '\\') :
    afterCommand? name (c :: rest) = none :=
  afterCommand?_of_absent fun start => different (List.cons_prefix_cons.mp start).1.symm

/-- A rule that offers edits only where a command starts does so only where a
backslash stands. -/
theorem Rule.StartsAt.startsAtBackslash {rule : Rule σ} {pattern : Text}
    (starts : rule.StartsAt ('\\' :: pattern)) : rule.StartsAtBackslash :=
  fun state cursor c rest different => starts state cursor (c :: rest) fun start =>
    different (List.cons_prefix_cons.mp start).1.symm

/-- Commands are edited only where a backslash stands. -/
theorem commandRule_startsAtBackslash (name : Text) (signature : Signature)
    (nested : σ → Text → σ × Text) (answer : Answer σ Arguments) :
    (commandRule name signature nested answer).StartsAtBackslash :=
  (commandRule_startsAt name signature nested answer).startsAtBackslash

/-- A text without a backslash has no command, however deep it is looked for. -/
theorem editCommandAt_of_plain (plain : '\\' ∉ text) (name : Text) (signature : Signature)
    (answer : Answer σ Arguments) (depth : Nat) (state : σ) :
    editCommandAt name signature answer depth state text = (state, text) :=
  editCommandAt_of_absent (Text.not_infix_of_not_mem plain) signature answer depth state

/-- A text without a backslash has no command. -/
@[simp] theorem editCommand_of_plain (plain : '\\' ∉ text) (name : Text) (signature : Signature)
    (answer : Answer σ Arguments) (state : σ) :
    editCommand name signature answer state text = (state, text) :=
  editCommandAt_of_plain plain name signature answer text.length state

/-- A text without a backslash has no command. -/
@[simp] theorem replaceCommand_of_plain (plain : '\\' ∉ text) (name : Text)
    (signature : Signature) (answer : Arguments → Option Text) :
    replaceCommand name signature answer text = text :=
  replaceCommand_of_absent (Text.not_infix_of_not_mem plain) signature answer

/-- A text without a backslash has no environment. -/
@[simp] theorem editEnvironment_of_plain (plain : '\\' ∉ text) (name : Text)
    (maxOptions required : Nat) (answer : Answer σ Environment) (state : σ) :
    editEnvironment name maxOptions required answer state text = (state, text) :=
  editEnvironment_of_absent (Text.not_infix_of_not_mem plain) maxOptions required answer state

end Scan

end LatexMarkdown

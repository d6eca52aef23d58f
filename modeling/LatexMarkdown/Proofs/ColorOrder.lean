import LatexMarkdown.Math.Clean
import LatexMarkdown.Proofs.LabelNumbers
import LatexMarkdown.Proofs.NestedTable

/-!
# The order of colour definitions

The definitions of colours are taken out of a document before the copies of colours. What
a sequence of both leaves is the table of all definitions in their order and then of all
copies in theirs. It is the table of the order in which they are written if no definition
has to pass a copy that it changes, or that it would be changed by.
-/

namespace LatexMarkdown

open Scan

/-! ## Commands with several arguments -/

namespace Scan

/-- A braced argument as it is written. -/
def group (argument : Text) : Text :=
  '{' :: argument ++ ['}']

/-- What the braces around it balance. -/
def IsBalanced (argument : Text) : Prop :=
  readBraced ('{' :: (argument ++ ['}'])) = some (argument, [])

instance (argument : Text) : Decidable (IsBalanced argument) :=
  inferInstanceAs (Decidable (_ = _))

theorem IsBalanced.readBraced_eq {argument : Text} (balanced : IsBalanced argument)
    (rest : Text) : readBraced ('{' :: (argument ++ '}' :: rest)) = some (argument, rest) := by
  have spelled : '{' :: (argument ++ '}' :: rest) = '{' :: (argument ++ ['}']) ++ rest := by simp
  rw [spelled, readBraced_append balanced, List.nil_append]

/-- A command is written with its arguments in braces. -/
theorem command_eq (name : String) (arguments : List Text) :
    Math.command name arguments = '\\' :: (name.toList ++ arguments.flatMap group) :=
  rfl

theorem readRequired_groups {arguments : List Text}
    (balanced : ∀ argument ∈ arguments, IsBalanced argument) (rest : Text) :
    readRequired arguments.length (arguments.flatMap group ++ rest) = some (arguments, rest) := by
  induction arguments with
  | nil => rfl
  | cons argument others inductionHypothesis =>
    rw [List.forall_mem_cons] at balanced
    have spelled : (argument :: others).flatMap group ++ rest =
        '{' :: (argument ++ '}' :: (others.flatMap group ++ rest)) := by simp [group]
    rw [spelled, List.length_cons, readRequired, skipGap_brace, balanced.1.readBraced_eq]
    simp only [Option.bind_eq_bind, Option.bind_some, inductionHypothesis balanced.2]

section Command

variable {σ : Type} {name : Text} {signature : Signature} {answer : Answer σ Arguments}
  {nested : σ → Text → σ × Text} {state next : σ}

/-- A closing brace does not make a command of what is none without it. -/
theorem afterCommand?_append_brace (braceless : '}' ∉ name) {text : Text}
    (unread : afterCommand? name text = none) (rest : Text) :
    afterCommand? name (text ++ '}' :: rest) = none := by
  cases found : afterCommand? name (text ++ '}' :: rest) with
  | none => rfl
  | some after =>
    have spelled := afterCommand?_eq_append found
    have named : '\\' :: name <+: text := by
      have reached : '\\' :: name <+: text ++ '}' :: rest := ⟨after, spelled.symm⟩
      exact Text.prefix_of_prefix_append_cons (by simp [braceless]) reached
    obtain ⟨inside, rfl⟩ := named
    have behind : after = inside ++ '}' :: rest := by
      rw [List.append_assoc] at spelled
      exact (List.append_cancel_left spelled).symm
    have letter : Text.startsWithLetter (inside ++ '}' :: rest) =
        Text.startsWithLetter inside := by
      cases inside with
      | nil => rfl
      | cons c others => rfl
    rw [List.cons_append, afterCommand?, if_pos rfl, Text.dropFront?_append] at unread
    rw [List.cons_append, List.cons_append, List.append_assoc, afterCommand?, if_pos rfl,
      Text.dropFront?_append] at found
    simp only [letter] at found unread
    split at unread
    next starts => exact absurd (found.symm.trans (if_pos starts)) (Option.some_ne_none _)
    · cases unread

/-- The text in a group has no use of a command if none is found in it. -/
theorem editFrom_of_unfound (braceless : '}' ∉ name) {text : Text} {first cursor : Cursor}
    (same : cursor.escaped = first.escaped) (unfound : findCommandFrom name first text = none)
    {behind : Text} (closed : behind = [] ∨ behind.head? = some '}') :
    editFrom (commandRule name signature nested answer) state cursor 0 (text ++ behind) =
      ((editFrom (commandRule name signature nested answer) state (cursor.advanceOver text) 0
          behind).1,
        text ++ (editFrom (commandRule name signature nested answer) state
          (cursor.advanceOver text) 0 behind).2) := by
  induction text generalizing first cursor with
  | nil => rfl
  | cons c others inductionHypothesis =>
    rw [findCommandFrom] at unfound
    split at unfound
    · cases unfound
    next nowhere =>
    have silent : commandRule name signature nested answer state cursor (c :: (others ++ behind)) =
        (state, none) := by
      rw [commandRule]
      split
      · rfl
      next free =>
        have unread : afterCommand? name (c :: others) = none := by
          rw [same] at free
          simpa [free] using nowhere
        have alsoUnread : afterCommand? name (c :: (others ++ behind)) = none := by
          rcases closed with rfl | starts
          · rwa [List.append_nil]
          · obtain ⟨rest, rfl⟩ := List.head?_eq_some_iff.mp starts
            exact afterCommand?_append_brace braceless unread rest
        rw [alsoUnread]
    have moved : (cursor.advance c).escaped = (first.advance c).escaped := by
      rw [Cursor.advance, Cursor.advance, same]
    rw [List.cons_append, editFrom_keep silent, inductionHypothesis moved unfound]
    rfl

theorem editCommandAt_of_unfound (braceless : '}' ∉ name) {text : Text}
    (unfound : findCommandFrom name .start text = none) (depth : Nat) :
    editCommandAt name signature answer depth state text = (state, text) := by
  cases depth with
  | zero => rfl
  | succ depth =>
    have whole : editFrom (commandRule name signature (editCommandAt name signature answer depth)
        answer) state .start 0 (text ++ []) = _ :=
      editFrom_of_unfound braceless rfl unfound (.inl rfl)
    rwa [List.append_nil, editFrom_nil, List.append_nil] at whole

namespace Turns

/-- A group in which a command is not found is kept. -/
theorem group (braceless : '}' ∉ name) {argument : Text}
    (unfound : findCommandFrom name .start argument = none) :
    Turns (commandRule name signature nested answer) state (Scan.group argument) state
      (Scan.group argument) := by
  intro cursor rest free
  have ends : (cursor.advanceOver (Scan.group argument)).escaped = false :=
    Cursor.advanceOver_concat_escaped cursor ('{' :: argument) (by decide)
  refine ⟨ends, ?_⟩
  have plain {cursor : Cursor} {c : Char} (different : c ≠ '\\') (after : Text) :
      commandRule name signature nested answer state cursor (c :: after) = (state, none) :=
    commandRule_startsAtBackslash name signature nested answer state cursor c after different
  have inside : editFrom (commandRule name signature nested answer) state (cursor.advance '{') 0
      (argument ++ '}' :: rest) = _ :=
    editFrom_of_unfound braceless (by simp [Cursor.advance, escapesNext, Cursor.start]) unfound
      (.inr rfl)
  have spelled : Scan.group argument ++ rest = '{' :: (argument ++ '}' :: rest) := by
    simp [Scan.group]
  rw [spelled, editFrom_keep (plain (by decide) _), inside, editFrom_keep (plain (by decide) _)]
  simp [Scan.group, Cursor.advanceOver]

/-- The use of another command is kept if the command is not found in its arguments. -/
theorem foreign (braceless : '}' ∉ name) {other : String}
    (plain : '\\' ∉ other.toList) (different : ¬ name <+: other.toList)
    (alsoDifferent : ¬ other.toList <+: name) {arguments : List Text}
    (unfound : ∀ argument ∈ arguments, findCommandFrom name .start argument = none) :
    Turns (commandRule name signature nested answer) state (Math.command other arguments) state
      (Math.command other arguments) := by
  have command : Turns (commandRule name signature nested answer) state ('\\' :: other.toList)
      state ('\\' :: other.toList) := by
    refine .spelled (commandRule_startsAt name signature nested answer) (Spells.single plain) ?_
    rw [List.forall_mem_singleton]
    exact ⟨different, alsoDifferent⟩
  have groups : Turns (commandRule name signature nested answer) state
      (arguments.flatMap Scan.group) state ((arguments.map id).flatMap Scan.group) :=
    .flatMap_map fun argument listed => group braceless (unfound argument listed)
  rw [List.map_id] at groups
  exact command.append groups

/-- The use of a command is answered as a whole if the command is not found in its
arguments. -/
theorem command {spelled : String} {arguments : List Text} (nonempty : arguments ≠ [])
    (balanced : ∀ argument ∈ arguments, IsBalanced argument) {depth : Nat}
    (braceless : '}' ∉ spelled.toList)
    (unfound : ∀ argument ∈ arguments, findCommandFrom spelled.toList .start argument = none)
    {written : Text} (answered : answer state ⟨false, [], arguments⟩ = (next, some written)) :
    Turns (commandRule spelled.toList ⟨true, 0, arguments.length⟩
        (editCommandAt spelled.toList ⟨true, 0, arguments.length⟩ answer depth) answer) state
      (Math.command spelled arguments) next written := by
  have kept : mapThread (editCommandAt spelled.toList ⟨true, 0, arguments.length⟩ answer depth)
      state arguments = (state, arguments) := by
    clear answered nonempty balanced
    generalize (⟨true, 0, arguments.length⟩ : Signature) = signature
    induction arguments with
    | nil => rfl
    | cons argument others inductionHypothesis =>
      rw [List.forall_mem_cons] at unfound
      simp only [mapThread, editCommandAt_of_unfound braceless unfound.1,
        inductionHypothesis unfound.2]
  obtain ⟨others, last, split⟩ := (List.eq_nil_or_concat arguments).resolve_left nonempty
  have ends : Math.command spelled arguments =
      '\\' :: (spelled.toList ++ (others.flatMap Scan.group ++ '{' :: last)) ++ ['}'] := by
    simp [split, command_eq, Scan.group]
  rw [ends]
  refine .replace (by decide) fun cursor rest free => ?_
  rw [← ends]
  have groups : Math.command spelled arguments ++ rest =
      '\\' :: (spelled.toList ++ (arguments.flatMap Scan.group ++ rest)) := by
    simp [command_eq]
  have opens : ∃ behind, arguments.flatMap Scan.group ++ rest = '{' :: behind := by
    obtain ⟨argument, later, rfl⟩ := List.exists_cons_of_ne_nil nonempty
    exact ⟨argument ++ '}' :: (later.flatMap Scan.group ++ rest), by simp [Scan.group]⟩
  have after : afterCommand? spelled.toList (Math.command spelled arguments ++ rest) =
      some (arguments.flatMap Scan.group ++ rest) := by
    obtain ⟨behind, opens⟩ := opens
    rw [groups, afterCommand?, if_pos rfl, Text.dropFront?_append, opens]
    rfl
  have read : readArguments ⟨true, 0, arguments.length⟩ (arguments.flatMap Scan.group ++ rest) =
      some (⟨false, [], arguments⟩, rest) := by
    obtain ⟨behind, opens⟩ := opens
    have unstarred : decide ((arguments.flatMap Scan.group ++ rest).head? = some '*') = false := by
      rw [opens]
      rfl
    simp only [readArguments, unstarred, Bool.and_false, Bool.false_eq_true, if_false, readOptions,
      Option.bind_eq_bind, Option.bind_some, readRequired_groups balanced]
  simp only [commandRule, free, after, read, kept, answered, byAnswer_some]
  rfl

end Turns

end Command

end Scan

/-! ## Tables that show the same colours -/

namespace ColorTable

/-- The name that is looked up for a colour expression. -/
def base (expression : Text) : Text :=
  Text.trim ((Text.trim expression).takeWhile (· ≠ '!'))

/-- Both tables give every colour expression the same value. -/
def Agree (first second : ColorTable) : Prop :=
  ∀ expression, first.resolve expression = second.resolve expression

theorem Agree.refl (colors : ColorTable) : Agree colors colors :=
  fun _ => rfl

theorem Agree.trans {first second third : ColorTable} (earlier : Agree first second)
    (later : Agree second third) : Agree first third :=
  fun expression => (earlier expression).trans (later expression)

/-- A name that is given a value has it, and no other name changes. -/
theorem resolve_put (defined : KeyedList Text) (name value expression : Text) :
    resolve ⟨KeyedList.put defined name value⟩ expression =
      if name = base expression then value else resolve ⟨defined⟩ expression := by
  by_cases same : name = base expression
  · rw [if_pos same, same, resolve, ← base, KeyedList.find?_put_self]
  · rw [if_neg same, resolve, resolve, ← base, KeyedList.find?_put_of_ne _ same]

end ColorTable

/-! ## Commands about colours -/

/-- A command that gives a name a colour. -/
inductive ColorCommand where
  /-- The colour is given in a model. -/
  | define (name model specification : Text)
  /-- The colour is that of another expression. -/
  | copy (name other : Text)
  deriving DecidableEq, Repr

namespace ColorCommand

open ColorTable (Agree base)

/-- The arguments in their order. -/
def arguments : ColorCommand → List Text
  | define name model specification => [name, model, specification]
  | copy name other => [name, other]

/-- The command as it is written. -/
def source : ColorCommand → Text
  | define name model specification => Math.command "definecolor" [name, model, specification]
  | copy name other => Math.command "colorlet" [name, other]

/-- Whether the colour is given in a model. -/
def isDefinition : ColorCommand → Bool
  | define .. => true
  | copy .. => false

/-- Execute the command on a table of colours. -/
def run (colors : ColorTable) : ColorCommand → ColorTable
  | define name model specification => (colors.define name model specification).1
  | copy name other => colors.copy name other

/-- What cannot be read defines nothing. -/
theorem run_unreadable {model specification : Text}
    (unreadable : Color.inModel? model specification = none) (colors : ColorTable) (name : Text) :
    (define name model specification).run colors = colors := by
  rw [run, ColorTable.define, unreadable]

/-- A definition changes the colour of one name. -/
theorem resolve_define {model specification value : Text}
    (readable : Color.inModel? model specification = some value) (colors : ColorTable)
    (name expression : Text) :
    ((define name model specification).run colors).resolve expression =
      if Text.trim name = base expression then value else colors.resolve expression := by
  rw [run, ColorTable.define, readable]
  exact ColorTable.resolve_put ..

/-- A copy changes the colour of one name. -/
theorem resolve_copy (colors : ColorTable) (name other expression : Text) :
    ((copy name other).run colors).resolve expression =
      if Text.trim name = base expression then colors.resolve other
      else colors.resolve expression :=
  ColorTable.resolve_put ..

theorem run_congr {first second : ColorTable} (agree : Agree first second)
    (command : ColorCommand) : Agree (command.run first) (command.run second) := by
  intro expression
  cases command with
  | define name model specification =>
    cases readable : Color.inModel? model specification with
    | none => rw [run_unreadable readable, run_unreadable readable, agree expression]
    | some value => rw [resolve_define readable, resolve_define readable, agree expression]
  | copy name other => rw [resolve_copy, resolve_copy, agree other, agree expression]

/-- Execute commands one at a time, in their order. -/
def runAll (colors : ColorTable) (commands : List ColorCommand) : ColorTable :=
  commands.foldl run colors

theorem runAll_congr {first second : ColorTable} (agree : Agree first second)
    (commands : List ColorCommand) : Agree (runAll first commands) (runAll second commands) := by
  induction commands generalizing first second with
  | nil => exact agree
  | cons command others inductionHypothesis => exact inductionHypothesis (run_congr agree command)

/-- A definition may be taken before an earlier copy: it cannot be read, or it gives a
colour to both or to neither of the name that the copy changes and the name that it
shows. -/
def MayPass : (earlier later : ColorCommand) → Prop
  | copy name other, define target model specification =>
    Color.inModel? model specification = none ∨
      (Text.trim target = Text.trim name ↔ Text.trim target = base other)
  | _, _ => True

instance : (earlier later : ColorCommand) → Decidable (MayPass earlier later)
  | copy .., define .. => inferInstanceAs (Decidable (_ ∨ _))
  | copy .., copy .. => .isTrue trivial
  | define .., _ => .isTrue trivial

/-- A definition that may pass a copy gives the same colours before it and after it. -/
theorem agree_swap {name other : Text} {definition : ColorCommand}
    (defines : definition.isDefinition = true) (mayPass : MayPass (copy name other) definition)
    (colors : ColorTable) :
    Agree ((copy name other).run (definition.run colors))
      (definition.run ((copy name other).run colors)) := by
  cases definition with
  | copy => cases defines
  | define target model specification =>
    cases readable : Color.inModel? model specification with
    | none =>
      rw [run_unreadable readable, run_unreadable readable]
      exact Agree.refl _
    | some value =>
      have names : Text.trim target = Text.trim name ↔ Text.trim target = base other :=
        mayPass.resolve_left (by simp [readable])
      intro expression
      simp only [resolve_copy, resolve_define readable]
      by_cases shown : Text.trim target = base other
      · rw [if_pos shown, names.mpr shown]
        split <;> rfl
      · have unchanged : Text.trim target ≠ Text.trim name := fun same => shown (names.mp same)
        rw [if_neg shown]
        by_cases changed : Text.trim name = base expression
        · rw [if_pos changed, if_pos changed, if_neg (changed ▸ unchanged)]
        · rw [if_neg changed, if_neg changed]

/-- A copy may be put off until after the definitions that may pass it. -/
theorem agree_putOff {name other : Text} {definitions : List ColorCommand}
    (define : ∀ definition ∈ definitions, definition.isDefinition = true)
    (pass : ∀ definition ∈ definitions, MayPass (copy name other) definition)
    (colors : ColorTable) (later : List ColorCommand) :
    Agree (runAll colors (definitions ++ copy name other :: later))
      (runAll colors (copy name other :: (definitions ++ later))) := by
  induction definitions generalizing colors with
  | nil => exact Agree.refl _
  | cons definition others inductionHypothesis =>
    rw [List.forall_mem_cons] at define pass
    exact (inductionHypothesis define.2 pass.2 (definition.run colors)).trans
      (runAll_congr (agree_swap define.1 pass.1 colors) (others ++ later))

/-- The definitions in their order, and then the copies in theirs. -/
def definitionsFirst (commands : List ColorCommand) : List ColorCommand :=
  commands.filter isDefinition ++ commands.filter (!isDefinition ·)

/-- If every definition may pass the copies before it, the definitions may come first. -/
theorem agree_definitionsFirst {commands : List ColorCommand} (pass : commands.Pairwise MayPass)
    (colors : ColorTable) :
    Agree (runAll colors (definitionsFirst commands)) (runAll colors commands) := by
  induction commands generalizing colors with
  | nil => exact Agree.refl colors
  | cons command others inductionHypothesis =>
    rw [List.pairwise_cons] at pass
    have later := inductionHypothesis pass.2 (command.run colors)
    cases command with
    | define name model specification => exact later
    | copy name other =>
      have define : ∀ definition ∈ others.filter isDefinition, definition.isDefinition = true :=
        fun definition listed => (List.mem_filter.mp listed).2
      have passes : ∀ definition ∈ others.filter isDefinition, MayPass (copy name other) definition :=
        fun definition listed => pass.1 definition (List.mem_filter.mp listed).1
      exact (agree_putOff define passes colors (others.filter (!isDefinition ·))).trans later

end ColorCommand

/-! ## Commands in a document -/

/-- What a document of colour commands is made of. -/
inductive ColorPart where
  | prose (text : Text)
  | command (step : ColorCommand)
  deriving DecidableEq, Repr

namespace ColorPart

open ColorTable (Agree)
open ColorCommand (runAll definitionsFirst MayPass)

/-- What is written for a part. -/
def source : ColorPart → Text
  | prose text => text
  | command step => step.source

/-- An argument is balanced, and no colour gets its value inside it. -/
structure IsArgument (argument : Text) : Prop where
  balanced : IsBalanced argument
  undefined : findCommandFrom "definecolor".toList .start argument = none
  uncopied : findCommandFrom "colorlet".toList .start argument = none

instance (argument : Text) : Decidable (IsArgument argument) :=
  decidable_of_iff (IsBalanced argument ∧
      findCommandFrom "definecolor".toList .start argument = none ∧
      findCommandFrom "colorlet".toList .start argument = none)
    ⟨fun ⟨balanced, undefined, uncopied⟩ => ⟨balanced, undefined, uncopied⟩,
      fun ⟨balanced, undefined, uncopied⟩ => ⟨balanced, undefined, uncopied⟩⟩

/-- The prose has no commands, and the commands have proper arguments. -/
def WellFormed : ColorPart → Prop
  | prose text => '\\' ∉ text
  | command step => ∀ argument ∈ step.arguments, IsArgument argument

instance : (part : ColorPart) → Decidable part.WellFormed
  | prose text => decidable_of_iff ('\\' ∉ text) Iff.rfl
  | command step => decidable_of_iff (∀ argument ∈ step.arguments, IsArgument argument) Iff.rfl

/-- The command of a part, if it is one. -/
def command? : ColorPart → Option ColorCommand
  | prose _ => none
  | command step => some step

/-- The text of a part that stays in the document. -/
def proseText : ColorPart → Text
  | prose text => text
  | command _ => []

/-- Execute a command of one kind, and leave nothing in its place. -/
def take (kind : ColorCommand → Bool) (colors : ColorTable) : ColorPart → ColorTable × ColorPart
  | prose text => (colors, prose text)
  | command step => if kind step then (step.run colors, prose []) else (colors, command step)

/-- Taking the commands of one kind executes them in their order, and leaves the others
and the prose. -/
theorem mapThread_take (kind : ColorCommand → Bool) (colors : ColorTable)
    (parts : List ColorPart) :
    (mapThread (take kind) colors parts).1 = runAll colors ((parts.filterMap command?).filter kind) ∧
      (mapThread (take kind) colors parts).2.filterMap command? =
        (parts.filterMap command?).filter (!kind ·) ∧
      (mapThread (take kind) colors parts).2.flatMap proseText = parts.flatMap proseText := by
  induction parts generalizing colors with
  | nil => exact ⟨rfl, rfl, rfl⟩
  | cons part others inductionHypothesis =>
    cases part with
    | prose text =>
      obtain ⟨table, left, text⟩ := inductionHypothesis colors
      exact ⟨table, left, by simp [mapThread, take, text]⟩
    | command step =>
      cases chosen : kind step with
      | true =>
        obtain ⟨table, left, text⟩ := inductionHypothesis (step.run colors)
        refine ⟨?_, ?_, ?_⟩
        · simpa [mapThread, take, command?, chosen, runAll] using table
        · simpa [mapThread, take, command?, chosen, List.filterMap_cons] using left
        · simpa [mapThread, take, proseText, chosen] using text
      | false =>
        obtain ⟨table, left, text⟩ := inductionHypothesis colors
        refine ⟨?_, ?_, ?_⟩
        · simpa [mapThread, take, command?, chosen] using table
        · simpa [mapThread, take, command?, chosen] using left
        · simpa [mapThread, take, proseText, chosen] using text

/-- Taking commands leaves the parts well formed. -/
theorem WellFormed.take {part : ColorPart} (wellFormed : part.WellFormed)
    (kind : ColorCommand → Bool) (colors : ColorTable) :
    (part.take kind colors).2.WellFormed := by
  cases part with
  | prose text => exact wellFormed
  | command step =>
    rw [ColorPart.take]
    split
    · exact List.not_mem_nil
    · exact wellFormed

theorem wellFormed_mapThread {parts : List ColorPart}
    (wellFormed : ∀ part ∈ parts, part.WellFormed) (kind : ColorCommand → Bool)
    (colors : ColorTable) :
    ∀ part ∈ (mapThread (ColorPart.take kind) colors parts).2, part.WellFormed := by
  induction parts generalizing colors with
  | nil => exact List.forall_mem_nil _
  | cons part others inductionHypothesis =>
    rw [List.forall_mem_cons] at wellFormed
    refine List.forall_mem_cons.mpr ⟨wellFormed.1.take kind colors, ?_⟩
    exact inductionHypothesis wellFormed.2 (part.take kind colors).1

/-- The answer to the command that gives a colour in a model. -/
def answerDefinition : Answer ColorTable Arguments := fun colors arguments =>
  ((ColorTable.define colors (arguments.argument 0) (arguments.argument 1)
    (arguments.argument 2)).1, some [])

/-- The answer to the command that copies a colour. -/
def answerCopy : Answer ColorTable Arguments := fun colors arguments =>
  (ColorTable.copy colors (arguments.argument 0) (arguments.argument 1), some [])

section Turns

variable {part : ColorPart}

/-- The definitions are taken out of a part, and all else is kept. -/
theorem WellFormed.turns_definition (wellFormed : part.WellFormed) (colors : ColorTable)
    (depth : Nat) :
    Turns (commandRule "definecolor".toList ⟨true, 0, 3⟩
        (editCommandAt "definecolor".toList ⟨true, 0, 3⟩ answerDefinition depth) answerDefinition)
      colors part.source (part.take ColorCommand.isDefinition colors).1
      (part.take ColorCommand.isDefinition colors).2.source := by
  cases part with
  | prose text =>
    exact .spelled (commandRule_startsAt _ _ _ _) (Spells.of_plain wellFormed : Spells [] text)
      (List.forall_mem_nil _)
  | command step =>
    have undefined := fun argument listed => (wellFormed argument listed).undefined
    cases step with
    | define name model specification =>
      exact .command (List.cons_ne_nil _ _)
        (fun argument listed => (wellFormed argument listed).balanced) (by decide) undefined rfl
    | copy name other => exact .foreign (by decide) (by decide) (by decide) (by decide) undefined

/-- The copies are taken out of a part, and all else is kept. -/
theorem WellFormed.turns_copy (wellFormed : part.WellFormed) (colors : ColorTable)
    (depth : Nat) :
    Turns (commandRule "colorlet".toList ⟨true, 0, 2⟩
        (editCommandAt "colorlet".toList ⟨true, 0, 2⟩ answerCopy depth) answerCopy)
      colors part.source (part.take (!ColorCommand.isDefinition ·) colors).1
      (part.take (!ColorCommand.isDefinition ·) colors).2.source := by
  cases part with
  | prose text =>
    exact .spelled (commandRule_startsAt _ _ _ _) (Spells.of_plain wellFormed : Spells [] text)
      (List.forall_mem_nil _)
  | command step =>
    have uncopied := fun argument listed => (wellFormed argument listed).uncopied
    cases step with
    | define name model specification =>
      exact .foreign (by decide) (by decide) (by decide) (by decide) uncopied
    | copy name other =>
      exact .command (List.cons_ne_nil _ _)
        (fun argument listed => (wellFormed argument listed).balanced) (by decide) uncopied rfl

end Turns

/-- A document without commands is its prose. -/
theorem source_of_prose {parts : List ColorPart} (none : parts.filterMap command? = []) :
    parts.flatMap source = parts.flatMap proseText := by
  rw [List.filterMap_eq_nil_iff] at none
  refine List.flatMap_congr fun part listed => ?_
  cases part with
  | prose text => rfl
  | command step => cases none _ listed

end ColorPart

namespace Preamble

open ColorCommand (MayPass agree_definitionsFirst definitionsFirst isDefinition runAll)
open ColorPart (answerCopy answerDefinition command? mapThread_take proseText source_of_prose
  wellFormed_mapThread)

/-- From a document of colour commands all definitions are executed in their order, and
then all copies in theirs; the prose stays. Every colour expression is shown as if the
commands had been executed in the order in which they are written, if each definition may
pass the copies before it. -/
theorem captureColors_parts {parts : List ColorPart}
    (wellFormed : ∀ part ∈ parts, part.WellFormed) (colors : ColorTable) :
    captureColors colors (parts.flatMap ColorPart.source) =
        (runAll colors (definitionsFirst (parts.filterMap command?)), parts.flatMap proseText) ∧
      ((parts.filterMap command?).Pairwise MayPass →
        ∀ expression, (captureColors colors (parts.flatMap ColorPart.source)).1.resolve expression =
          (runAll colors (parts.filterMap command?)).resolve expression) := by
  have captured : captureColors colors (parts.flatMap ColorPart.source) =
      (runAll colors (definitionsFirst (parts.filterMap command?)), parts.flatMap proseText) := by
    obtain ⟨defined, left, text⟩ := mapThread_take isDefinition colors parts
    have definitions : editCommand "definecolor".toList ⟨true, 0, 3⟩ answerDefinition colors
        (parts.flatMap ColorPart.source) =
        ((mapThread (ColorPart.take isDefinition) colors parts).1,
          (mapThread (ColorPart.take isDefinition) colors parts).2.flatMap ColorPart.source) :=
      editCommand_of_turns fun depth => .flatMap
        (fun colors part listed => (wellFormed part listed).turns_definition colors depth) colors
    have leftWellFormed := wellFormed_mapThread wellFormed isDefinition colors
    generalize mapThread (ColorPart.take isDefinition) colors parts = outcome at *
    obtain ⟨copied, none, alsoText⟩ := mapThread_take (!isDefinition ·) outcome.1 outcome.2
    have copies : editCommand "colorlet".toList ⟨true, 0, 2⟩ answerCopy outcome.1
        (outcome.2.flatMap ColorPart.source) =
        ((mapThread (ColorPart.take (!isDefinition ·)) outcome.1 outcome.2).1,
          (mapThread (ColorPart.take (!isDefinition ·)) outcome.1 outcome.2).2.flatMap
            ColorPart.source) :=
      editCommand_of_turns fun depth => .flatMap
        (fun colors part listed => (leftWellFormed part listed).turns_copy colors depth) outcome.1
    have proseOnly := source_of_prose (none.trans (by simp [left]))
    have passes : captureColors colors (parts.flatMap ColorPart.source) =
        editCommand "colorlet".toList ⟨true, 0, 2⟩ answerCopy
          (editCommand "definecolor".toList ⟨true, 0, 3⟩ answerDefinition colors
            (parts.flatMap ColorPart.source)).1
          (editCommand "definecolor".toList ⟨true, 0, 3⟩ answerDefinition colors
            (parts.flatMap ColorPart.source)).2 := rfl
    rw [passes, definitions, copies, proseOnly, alsoText, text, copied, left, defined]
    simp [runAll, definitionsFirst]
  refine ⟨captured, fun pass expression => ?_⟩
  rw [captured]
  exact agree_definitionsFirst pass colors expression

/-- A copy of a colour that is defined before it, and a definition that it does not show. -/
def orderedColors : List ColorPart :=
  [.command (.define "b".toList "HTML".toList "112233".toList), .prose "x".toList,
    .command (.copy "a".toList "b!50".toList),
    .command (.define "c".toList "gray".toList "0.5".toList)]

theorem captureColors_ordered :
    (∀ part ∈ orderedColors, part.WellFormed) ∧
      (orderedColors.filterMap command?).Pairwise MayPass ∧
      (captureColors .empty (orderedColors.flatMap ColorPart.source)).1.resolve "a".toList =
        (runAll .empty (orderedColors.filterMap command?)).resolve "a".toList :=
  ⟨by decide, by decide,
    (captureColors_parts (by decide) .empty).2 (by decide) "a".toList⟩

/-- A name that gets its colour from a copy, and after it from a definition. -/
def redefinedColor : List ColorPart :=
  [.command (.copy "a".toList "red".toList),
    .command (.define "a".toList "HTML".toList "112233".toList)]

/-- The copy overrides the definition after it, since the definitions come first. -/
theorem captureColors_redefinedColor :
    (∀ part ∈ redefinedColor, part.WellFormed) ∧
      (captureColors .empty (redefinedColor.flatMap ColorPart.source)).1.resolve "a".toList =
        "#e53935".toList ∧
      (runAll .empty (redefinedColor.filterMap command?)).resolve "a".toList =
        "#112233".toList := by
  decide

end Preamble

end LatexMarkdown

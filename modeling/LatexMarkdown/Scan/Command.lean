import LatexMarkdown.Scan.Arguments
import LatexMarkdown.Scan.Edit

/-!
# Commands

A command is an unescaped backslash with a name that no further letter extends.
Editing a command first edits the uses of the same command inside its
braced arguments, then asks for an answer on what was read. A use without an
answer, or with unreadable arguments, stays as it is.
-/

namespace LatexMarkdown.Scan

/-- The text after the command `\name` at the start of a text. -/
def afterCommand? (name : Text) : Text -> Option Text
  | [] => none
  | c :: rest =>
    if c = '\\' then
      match Text.dropFront? name rest with
      | some after => if Text.startsWithLetter after then none else some after
      | none => none
    else none

/-- The first unescaped use of a command, as an offset. -/
def findCommandFrom (name : Text) : Cursor -> Text -> Option Nat
  | _, [] => none
  | cursor, c :: rest =>
    if !cursor.escaped && (afterCommand? name (c :: rest)).isSome then some cursor.offset
    else findCommandFrom name (cursor.advance c) rest

/-- The first unescaped use of a command at or after an offset. -/
def findCommandAt (name text : Text) (offset : Nat) : Option Nat := do
  let suffix <- Text.suffixAt? text offset
  findCommandFrom name ⟨offset, isEscapedAt false text offset⟩ suffix

/-- An answer to the arguments of a command: the text to write in its place. -/
abbrev Answer (σ : Type) (α : Type) :=
  σ -> α -> σ × Option Text

/-- The rule for one command; `nested` edits its braced arguments. -/
def commandRule {σ : Type} (name : Text) (signature : Signature)
    (nested : σ -> Text -> σ × Text) (answer : Answer σ Arguments) : Rule σ :=
  fun state cursor text =>
    if cursor.escaped then (state, none)
    else match afterCommand? name text with
      | none => (state, none)
      | some after =>
        match readArguments signature after with
        | none => (state, some (Edit.byAnswer text after none))
        | some (arguments, rest) =>
          let (state, required) := mapThread nested state arguments.required
          let (state, replacement) := answer state { arguments with required }
          (state, some (Edit.byAnswer text rest replacement))

/-- Edit a command down to a nesting depth of its own arguments. -/
def editCommandAt {σ : Type} (name : Text) (signature : Signature)
    (answer : Answer σ Arguments) : (depth : Nat) -> σ -> Text -> σ × Text
  | 0, state, text => (state, text)
  | depth + 1, state, text =>
    edit (commandRule name signature (editCommandAt name signature answer depth) answer)
      state text

/-- Edit every use of a command. An argument is shorter than the text it is
read from, so the length of the text bounds the nesting. -/
def editCommand {σ : Type} (name : Text) (signature : Signature)
    (answer : Answer σ Arguments) (state : σ) (text : Text) : σ × Text :=
  editCommandAt name signature answer text.length state text

/-- Edit every use of a command by an answer without state. -/
def replaceCommand (name : Text) (signature : Signature)
    (answer : Arguments -> Option Text) (text : Text) : Text :=
  (editCommand name signature (fun (_ : Unit) arguments => ((), answer arguments)) () text).2

/-- Replace every use of a command without arguments, together with the spaces
and tabs after it. -/
def replaceControlWord (name replacement : Text) (text : Text) : Text :=
  (edit (fun (_ : Unit) cursor suffix =>
    if cursor.escaped then ((), none)
    else ((), (afterCommand? name suffix).map fun after =>
      Edit.upTo suffix (after.dropWhile Text.isSpaceOrTab) replacement)) () text).2

end LatexMarkdown.Scan

import LatexMarkdown.Scan.Command

/-!
# Grouped declarations

A declaration acts on the rest of the braced group that it opens. The rest is
edited before the answer on the group is asked for. A group without an answer
stays, and the groups inside it are looked at again on their own.
-/

namespace LatexMarkdown.Scan

/-- A group that opens with a command: its name and the rest of the group. -/
structure Declaration where
  name : Text
  rest : Text
  deriving DecidableEq, Repr

/-- The declaration in the group at the start of the text, and the text after
the group. -/
def readDeclaration (text : Text) : Option (Declaration × Text) :=
  match text with
  | [] => none
  | c :: inside =>
    if c = '{' then
      match Text.skipGap inside with
      | [] => none
      | first :: name =>
        if first = '\\' && Text.startsWithLetter name then do
          let (inner, rest) <- readBraced text
          let content := (Text.skipGap inner).tail
          some (⟨content.takeWhile Char.isAlpha, content.dropWhile Char.isAlpha⟩, rest)
        else none
    else none

/-- The rule for grouped declarations; `nested` edits the rest of a group. -/
def declarationRule {σ : Type} (nested : σ -> Text -> σ × Text)
    (answer : Answer σ Declaration) : Rule σ :=
  fun state cursor text =>
    if cursor.escaped then (state, none)
    else match readDeclaration text with
      | none => (state, none)
      | some (declaration, after) =>
        let (state, rest) := nested state declaration.rest
        let (state, replacement) := answer state ⟨declaration.name, rest⟩
        (state, replacement.map (Edit.upTo text after))

/-- Edit grouped declarations down to a nesting depth. -/
def editDeclarationAt {σ : Type} (answer : Answer σ Declaration) :
    (depth : Nat) -> σ -> Text -> σ × Text
  | 0, state, text => (state, text)
  | depth + 1, state, text =>
    edit (declarationRule (editDeclarationAt answer depth) answer) state text

/-- Edit every grouped declaration. The rest of a group is shorter than the
text it is read from, so the length of the text bounds the nesting. -/
def editDeclaration {σ : Type} (answer : Answer σ Declaration) (state : σ) (text : Text) :
    σ × Text :=
  editDeclarationAt answer text.length state text

/-- Edit every grouped declaration by an answer without state. -/
def replaceDeclaration (answer : Declaration -> Option Text) (text : Text) : Text :=
  (editDeclaration (fun (_ : Unit) declaration => ((), answer declaration)) () text).2

end LatexMarkdown.Scan

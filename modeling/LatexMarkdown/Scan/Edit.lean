import LatexMarkdown.Scan.Cursor

/-!
# Editing from left to right

A rule is asked at every position that is not covered yet. It may offer an edit:
so many characters from here are replaced by this text. Everything that no edit
covers is kept. A rule may carry a state from one position to the next.
-/

namespace LatexMarkdown.Scan

/-- The next `width` characters are to be replaced. An edit covers at least one
character, whatever its width says. -/
structure Edit where
  width : Nat
  replacement : Text
  deriving DecidableEq, Repr

/-- What may happen at a position, given the text from there on. -/
abbrev Rule (σ : Type) :=
  σ -> Cursor -> Text -> σ × Option Edit

/-- Edit the text from a position on, passing over the next `covered`
characters, which an edit has already replaced. -/
def editFrom {σ : Type} (rule : Rule σ) :
    σ -> Cursor -> (covered : Nat) -> Text -> σ × Text
  | state, _, _, [] => (state, [])
  | state, cursor, covered + 1, c :: rest =>
    editFrom rule state (cursor.advance c) covered rest
  | state, cursor, 0, c :: rest =>
    match rule state cursor (c :: rest) with
    | (state, none) =>
      let (state, written) := editFrom rule state (cursor.advance c) 0 rest
      (state, c :: written)
    | (state, some edit) =>
      let (state, written) :=
        editFrom rule state (cursor.advance c) (edit.width - 1) rest
      (state, edit.replacement ++ written)

/-- Edit a whole text. -/
def edit {σ : Type} (rule : Rule σ) (state : σ) (text : Text) : σ × Text :=
  editFrom rule state Cursor.start 0 text

/-- Edit a whole text by a rule that looks only at the text ahead. -/
def editAhead (ahead : Text -> Option Edit) (text : Text) : Text :=
  (edit (fun (_ : Unit) _ suffix => ((), ahead suffix)) () text).2

/-- Replace the characters of `text` before its suffix `rest`. -/
def Edit.upTo (text rest : Text) (replacement : Text) : Edit :=
  ⟨text.length - rest.length, replacement⟩

/-- Replace the characters of `text` before its suffix `rest` by an answer.
Without one they stay as they are and are passed over. -/
def Edit.byAnswer (text rest : Text) (answer : Option Text) : Edit :=
  Edit.upTo text rest (answer.getD (text.take (text.length - rest.length)))

/-- Replace every occurrence of a pattern, from left to right. -/
def replaceAll (pattern replacement text : Text) : Text :=
  editAhead (fun suffix =>
    (Text.dropFront? pattern suffix).map fun _ => ⟨pattern.length, replacement⟩) text

/-- Run a stateful function over a list from left to right. -/
def mapThread {σ α β : Type} (f : σ -> α -> σ × β) : σ -> List α -> σ × List β
  | state, [] => (state, [])
  | state, first :: others =>
    let (state, first) := f state first
    let (state, others) := mapThread f state others
    (state, first :: others)

end LatexMarkdown.Scan

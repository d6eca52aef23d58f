import LatexMarkdown.Scan.Enclosed
import LatexMarkdown.Scan.Environment
import LatexMarkdown.Text.Blank
import LatexMarkdown.Text.Word

/-!
# Lists

The markers of lists are read in order, with a stack of the lists that are
open. Every item starts on a line of its own, indented by the markers of the
lists around its own list.
-/

namespace LatexMarkdown.Block

/-- The kinds of lists. -/
inductive ListKind where
  | itemize
  | enumerate
  | description
  deriving DecidableEq, Repr

namespace ListKind

/-- All kinds. -/
def all : List ListKind :=
  [itemize, enumerate, description]

/-- The name of the environment. -/
def name : ListKind -> Text
  | itemize => "itemize".toList
  | enumerate => "enumerate".toList
  | description => "description".toList

/-- The width of the marker of an item, which is the indentation of the lists
inside the item. -/
def markerWidth : ListKind -> Nat
  | enumerate => 3
  | itemize | description => 2

end ListKind

/-- The marker of an item. A label is set in bold, whatever the kind of list. -/
def itemMarker (kind : ListKind) (label : Option Text) : Text :=
  match label, kind with
  | some label, _ => "- **".toList ++ Text.trim label ++ "** ".toList
  | none, .enumerate => "1. ".toList
  | none, _ => "- ".toList

/-- A marker of a list. -/
inductive ListToken where
  /-- A list begins. -/
  | opening (kind : ListKind)
  /-- The innermost list ends. -/
  | closing
  /-- An item starts, perhaps with a label. -/
  | item (label : Option Text)
  deriving DecidableEq, Repr

/-- The marker of a list at the start of the text, and the text after it. -/
def readListToken (text : Text) : Option (ListToken × Text) :=
  (ListKind.all.findSome? fun kind =>
    (Text.dropFront? (Scan.beginMarker kind.name) text).map fun rest =>
      (ListToken.opening kind, Scan.skipLineOption rest))
  <|> (ListKind.all.findSome? fun kind =>
    (Text.dropFront? (Scan.endMarker kind.name) text).map fun rest => (ListToken.closing, rest))
  <|> (do
    let rest <- Text.dropFront? "\\item".toList text
    if Text.endsWord rest then
      match Scan.readLineOption rest with
      | some (label, rest) => some (.item (some label), rest)
      | none => some (.item none, rest)
    else none)

/-- What the markers of lists leave of a text: the text before the first marker,
then each marker with the text after it. A marker that is escaped is no marker
but belongs to the text as a whole. -/
structure ListPieces where
  before : Text
  marked : List (ListToken × Text)
  deriving DecidableEq, Repr

namespace ListPieces

/-- Put a character in front. -/
def keep (c : Char) (pieces : ListPieces) : ListPieces :=
  { pieces with before := c :: pieces.before }

/-- Put a marker in front. -/
def mark (token : ListToken) (pieces : ListPieces) : ListPieces :=
  ⟨[], (token, pieces.before) :: pieces.marked⟩

end ListPieces

/-- How the next characters of a text with list markers are taken. -/
inductive Coverage where
  /-- They are looked at. -/
  | free
  /-- So many of them belong to a marker. -/
  | marker (width : Nat)
  /-- So many of them belong to an escaped marker. -/
  | escaped (width : Nat)
  deriving DecidableEq, Repr

/-- Split a text at the markers of lists. -/
def listPiecesFrom : Scan.Cursor -> Coverage -> Text -> ListPieces
  | _, _, [] => ⟨[], []⟩
  | cursor, .marker (width + 1), c :: rest =>
    listPiecesFrom (cursor.advance c) (.marker width) rest
  | cursor, .escaped (width + 1), c :: rest =>
    (listPiecesFrom (cursor.advance c) (.escaped width) rest).keep c
  | cursor, _, c :: rest =>
    match readListToken (c :: rest) with
    | none => (listPiecesFrom (cursor.advance c) .free rest).keep c
    | some (token, after) =>
      let width := rest.length - after.length
      if cursor.escaped then
        (listPiecesFrom (cursor.advance c) (.escaped width) rest).keep c
      else (listPiecesFrom (cursor.advance c) (.marker width) rest).mark token

/-- What has been written of a text with lists: the output in reverse, the lists
that are open, the innermost first, and whether an outermost list has begun
without an item yet. -/
structure ListState where
  written : Text
  stack : List ListKind
  begun : Bool
  deriving DecidableEq, Repr

namespace ListState

/-- Nothing is written. -/
def empty : ListState :=
  ⟨[], [], false⟩

/-- Write a text. -/
def write (state : ListState) (text : Text) : ListState :=
  { state with written := text.reverse ++ state.written }

/-- Take back the blanks at the end of what is written. -/
def trimWritten (state : ListState) : ListState :=
  { state with written := state.written.dropWhile Text.isBlank }

/-- Write the start of an item. The first item of an outermost list has a blank
line before it. -/
def startItem (state : ListState) (label : Option Text) : ListState :=
  let trimmed := state.trimWritten
  let breaks := if trimmed.written.isEmpty then []
    else if state.begun then "\n\n".toList else ['\n']
  let indentation := state.stack.tail.foldl (fun width kind => width + kind.markerWidth) 0
  let kind := state.stack.headD .itemize
  { trimmed.write (breaks ++ Text.repeated indentation ' ' ++ itemMarker kind label) with
    begun := false }

/-- Write what a marker and the text after it become. -/
def addMarked (state : ListState) (marked : ListToken × Text) : ListState :=
  match marked with
  | (.opening kind, text) =>
    ({ state with stack := kind :: state.stack,
                  begun := state.begun || state.stack.isEmpty } : ListState).write text
  | (.closing, text) =>
    let stack := state.stack.tail
    ({ state.trimWritten with stack }.write
      (if stack.isEmpty then "\n\n".toList else ['\n'])).write (Text.trimStart text)
  | (.item label, text) => (state.startItem label).write (Text.trimStart text)

end ListState

/-- Turn all lists of a text into Markdown lists. -/
def convertLists (text : Text) : Text :=
  let pieces := listPiecesFrom .start .free text
  (pieces.marked.foldl ListState.addMarked (ListState.empty.write pieces.before)).written.reverse

end LatexMarkdown.Block

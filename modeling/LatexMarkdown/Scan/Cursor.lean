import LatexMarkdown.Text.Basic

/-!
# Reading positions

A backslash escapes the character after it unless it is escaped itself. Whether
a position is escaped therefore depends only on the run of backslashes that ends
there: it is escaped exactly when that run is odd.
-/

namespace LatexMarkdown.Scan

/-- Whether the position after `c` is escaped, from whether `c` itself is. -/
def escapesNext (escaped : Bool) (c : Char) : Bool :=
  c = '\\' && !escaped

/-- Where a scan stands: the bytes before it, and whether the next character is
escaped by a backslash. -/
structure Cursor where
  offset : Nat
  escaped : Bool
  deriving DecidableEq, Repr

namespace Cursor

/-- The position at the start of a text. -/
def start : Cursor :=
  ⟨0, false⟩

/-- The position after one more character. -/
def advance (cursor : Cursor) (c : Char) : Cursor :=
  ⟨cursor.offset + c.utf8Size, escapesNext cursor.escaped c⟩

/-- The position after a piece of text. -/
def advanceOver (cursor : Cursor) (text : Text) : Cursor :=
  text.foldl advance cursor

end Cursor

/-- Whether the character `offset` bytes into the text is escaped. Past the end
this asks about the end. -/
def isEscapedAt : (escaped : Bool) -> Text -> (offset : Nat) -> Bool
  | escaped, [], _ => escaped
  | escaped, c :: rest, offset =>
    if offset = 0 then escaped
    else if offset < c.utf8Size then false
    else isEscapedAt (escapesNext escaped c) rest (offset - c.utf8Size)

/-- The offset reached from `offset` after the gap that starts there. -/
def skipGapAt (text : Text) (offset : Nat) : Nat :=
  match Text.suffixAt? text offset with
  | some suffix => offset + Text.utf8Length (suffix.takeWhile Text.isGap)
  | none => offset

end LatexMarkdown.Scan

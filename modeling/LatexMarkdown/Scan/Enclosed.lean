import LatexMarkdown.Scan.Edit
import LatexMarkdown.Text.Blank

/-!
# Enclosures without nesting

Some arguments end at the first closing character, whatever stands before it.
-/

namespace LatexMarkdown.Scan

/-- What stands between an opening character and the first closing one, and the
text after that. -/
def readEnclosed (opening closing : Char) (text : Text) : Option (Text × Text) :=
  match text with
  | [] => none
  | c :: inside =>
    if c = opening then
      match inside.dropWhile (· ≠ closing) with
      | _ :: rest => some (inside.takeWhile (· ≠ closing), rest)
      | [] => none
    else none

/-- The text after an enclosure and the blanks before it. Where there is none,
and where it never ends, nothing is passed over. -/
def skipEnclosed (opening closing : Char) (text : Text) : Text :=
  match readEnclosed opening closing (Text.trimStart text) with
  | some (_, rest) => rest
  | none => text

/-- What `readEnclosed` reads, if it lies on a single line. -/
def readEnclosedInLine (opening closing : Char) (text : Text) : Option (Text × Text) :=
  (readEnclosed opening closing text).filter fun (inner, _) => inner.all (· ≠ '\n')

/-- A bracketed option on a single line, after spaces and tabs. -/
def readLineOption (text : Text) : Option (Text × Text) :=
  readEnclosedInLine '[' ']' (text.dropWhile Text.isSpaceOrTab)

/-- The text after a bracketed option on a single line, if there is one. -/
def skipLineOption (text : Text) : Text :=
  match readLineOption text with
  | some (_, rest) => rest
  | none => text

/-- Replace whatever a reader reads, from left to right. The reader gives the
replacement and the text after what it read. -/
def substitute (read : Text -> Option (Text × Text)) (text : Text) : Text :=
  editAhead (fun suffix =>
    (read suffix).map fun (replacement, rest) => Edit.upTo suffix rest replacement) text

/-- The text after the first of some words that the text starts with. -/
def afterOneOf? (words : List Text) (text : Text) : Option Text :=
  words.findSome? fun word => Text.dropFront? word text

end LatexMarkdown.Scan

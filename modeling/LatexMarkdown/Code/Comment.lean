import LatexMarkdown.Scan.Environment

/-!
# Comments

A percent sign that is not escaped starts a comment, which takes its line break
with it. Verbatim environments are kept whole, and inside inline code a percent
sign is not a comment.
-/

namespace LatexMarkdown.Code

/-- The environments in which nothing is a comment: how they begin and end. -/
def fences : List (Text × Text) :=
  ["verbatim", "verbatim*", "Verbatim", "lstlisting", "minted"].map fun name =>
    (Scan.beginMarker name.toList, Scan.endMarker name.toList)

/-- How inline code begins. -/
def inlineOpening : Text :=
  "\\verb".toList

/-- The characters of inline code at the start of the text, when it is closed in
the line. The delimiter is a character of ASCII and no letter. -/
def inlineWidth? (text : Text) : Option Nat := do
  let after <- Text.dropFront? inlineOpening text
  let after := (Text.dropFront? ['*'] after).getD after
  match after with
  | [] => none
  | delimiter :: inside =>
    if delimiter.toNat < 128 && !delimiter.isAlpha then
      match inside.dropWhile (· ≠ delimiter) with
      | [] => none
      | _ :: rest => some (text.length - rest.length)
    else none

/-- The part of a line before its comment. The next `covered` characters are
escaped or belong to inline code. -/
def beforeComment : (covered : Nat) -> Text -> Text
  | _, [] => []
  | covered + 1, c :: rest => c :: beforeComment covered rest
  | 0, c :: rest =>
    if c = '\\' then
      c :: beforeComment (((inlineWidth? (c :: rest)).getD 2) - 1) rest
    else if c = '%' then []
    else c :: beforeComment 0 rest

/-- Drop the comments of lines; inside a verbatim environment its end is
awaited. -/
def stripCommentLines : (awaited : Option Text) -> List Text -> List Text
  | _, [] => []
  | some closing, line :: others =>
    line :: stripCommentLines (if Text.contains closing line then none else some closing) others
  | none, line :: others =>
    match fences.find? fun (opening, _) => Text.contains opening line with
    | some (_, closing) =>
      line ::
        stripCommentLines (if Text.contains closing line then none else some closing) others
    | none => beforeComment 0 line :: stripCommentLines none others

/-- A text without its comments. -/
def stripComments (text : Text) : Text :=
  (stripCommentLines none (Text.linesWithBreaks text)).flatten

end LatexMarkdown.Code

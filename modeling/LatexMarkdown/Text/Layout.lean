import LatexMarkdown.Scan.Edit
import LatexMarkdown.Text.Blank
import LatexMarkdown.Text.Classes

/-!
# Indentation, space runs and blank lines

Lines lose their indentation unless it nests a list item, and the spaces at
their end. Runs of spaces and runs of blank lines shrink to one. A last pass
over the finished document drops surplus blank lines outside code fences only.
-/

namespace LatexMarkdown.Text

/-- Change every line of a text by itself. -/
def mapLines (change : Text -> Text) (text : Text) : Text :=
  joinWith ['\n'] ((splitOn '\n' text).map change)

/-- Whether a text starts with the marker of a list item and its space. -/
def startsWithItemMarker (text : Text) : Bool :=
  startsWith "- ".toList text ||
    ((text.head?.any isDecimal) && startsWith ". ".toList (text.dropWhile isDecimal))

/-- A line without its indentation. An indented list item keeps it. -/
def withoutIndentation (line : Text) : Text :=
  if startsWithItemMarker (line.dropWhile isSpaceOrTab) then line
  else line.dropWhile isSpaceOrTab

/-- Drop the indentation of all lines but indented list items. -/
def stripIndentation (text : Text) : Text :=
  mapLines withoutIndentation text

/-- Drop the spaces and tabs at the end of every line. -/
def stripLineEnds (text : Text) : Text :=
  mapLines (dropTrailing isSpaceOrTab) text

/-- Put one space for every longer run of spaces and tabs that follows a
character which is not blank. -/
def squeezeSpaces (text : Text) : Text :=
  Scan.editAhead (fun suffix =>
    match suffix with
    | [] => none
    | c :: rest =>
      let run := rest.takeWhile isSpaceOrTab
      if !isBlank c && 2 ≤ run.length then some ⟨run.length + 1, [c, ' ']⟩ else none) text

/-- Put two line breaks for every longer run of line breaks. -/
def squeezeLineBreaks (text : Text) : Text :=
  Scan.editAhead (fun suffix =>
    let run := suffix.takeWhile (· = '\n')
    if 3 ≤ run.length then some ⟨run.length, ['\n', '\n']⟩ else none) text

/-- Bring indentation, line ends, space runs and blank lines into normal form. -/
def normalizeBlanks (text : Text) : Text :=
  squeezeLineBreaks (squeezeSpaces (stripLineEnds (stripIndentation text)))

/-- Whether a line opens or closes a code fence. -/
def isFence (line : Text) : Bool :=
  startsWith "```".toList (trimStart line)

/-- Drop the blank lines outside code fences that follow a blank line outside a
code fence. -/
def dropSurplusBlankLines : (fenced afterBlank : Bool) -> List Text -> List Text
  | _, _, [] => []
  | fenced, afterBlank, line :: others =>
    if isFence line then line :: dropSurplusBlankLines (!fenced) false others
    else if !fenced && isBlankText line then
      if afterBlank then dropSurplusBlankLines fenced true others
      else line :: dropSurplusBlankLines fenced true others
    else line :: dropSurplusBlankLines fenced false others

/-- Drop surplus blank lines from a finished document; one that is blank
throughout becomes empty. -/
def finishLayout (text : Text) : Text :=
  if isBlankText text then []
  else joinWith ['\n'] (dropSurplusBlankLines false false (splitOn '\n' text))

end LatexMarkdown.Text

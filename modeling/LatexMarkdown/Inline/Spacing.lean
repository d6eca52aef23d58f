import LatexMarkdown.Block.Line
import LatexMarkdown.Inline.Box

/-!
# Spaces and breaks

Explicit spaces become elements of that size. Breaks of lines become breaks of
paragraphs, and breaks of pages lines across the page.
-/

namespace LatexMarkdown.Inline

/-- A space in a line. -/
def renderSpace (arguments : Scan.Arguments) : Text :=
  let width := Text.trim (arguments.argument 0)
  if width = "\\fill".toList then blankFill
  else Html.styled "span" (style [inLine, lengthProperty "width" width]) []

/-- A space between paragraphs. -/
def renderSkip (height : Text) : Text :=
  Html.paragraph (Html.styled "div" (Html.property "height" height) [])

/-- The break between two paragraphs. -/
def paragraphBreak : Text :=
  "\n\n".toList

/-- The words that stand for a space, in the order in which they are looked
for. -/
def spaceWords : List (Text × Text) :=
  [("smallskip".toList, renderSkip "0.5em".toList), ("medskip".toList, renderSkip "1em".toList),
    ("bigskip".toList, renderSkip "2em".toList), ("qquad".toList, "&emsp;&emsp;".toList),
    ("quad".toList, "&emsp;".toList), ("noindent".toList, []), ("indent".toList, []),
    ("newpage".toList, pageRule), ("clearpage".toList, pageRule),
    ("cleardoublepage".toList, pageRule)]

/-- Convert all spaces and breaks. -/
def convertSpacing (text : Text) : Text :=
  let text := Scan.replaceCommand "hspace".toList ⟨true, 0, 1⟩ (fun arguments =>
    some (renderSpace arguments)) text
  let text := Scan.replaceCommand "vspace".toList ⟨true, 0, 1⟩ (fun arguments =>
    some (renderSkip (Length.convert (arguments.argument 0)))) text
  let text := spaceWords.foldl (fun text (name, space) =>
    Scan.replaceControlWord name space text) text
  let text := Scan.replaceCommand "pagebreak".toList ⟨true, 1, 0⟩ (fun _ => some pageRule) text
  let text := Scan.replaceCommand "linebreak".toList ⟨true, 1, 0⟩
    (fun _ => some paragraphBreak) text
  let text := Scan.replaceControlWord "newline".toList paragraphBreak text
  let text := Scan.replaceControlWord "par".toList paragraphBreak text
  Block.replaceLineBreaks paragraphBreak text

end LatexMarkdown.Inline

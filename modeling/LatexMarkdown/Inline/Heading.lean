import LatexMarkdown.Html
import LatexMarkdown.Scan.Command
import LatexMarkdown.Text.Blank

/-!
# Headings, captions and notes

Headings become Markdown headings and captions bold paragraphs. Notes are put
in parentheses where they stand.
-/

namespace LatexMarkdown.Inline

/-- The commands of headings with their levels, in the order in which they are
looked for. -/
def headingLevels : List (Text × Nat) :=
  [("part", 1), ("chapter", 1), ("section", 1), ("subsection", 2), ("subsubsection", 3),
    ("paragraph", 4), ("subparagraph", 5)].map fun (name, level) => (name.toList, level)

/-- A heading of a level. -/
def renderHeading (level : Nat) (title : Text) : Text :=
  Html.paragraph (Text.repeated level '#' ++ ' ' :: Text.collapseBlanks title)

/-- Convert all headings. -/
def convertHeadings (text : Text) : Text :=
  headingLevels.foldl (fun text (name, level) =>
    Scan.replaceCommand name ⟨true, 1, 1⟩ (fun arguments =>
      some (renderHeading level (arguments.argument 0))) text) text

/-- A caption. -/
def renderCaption (caption : Text) : Text :=
  Html.paragraph ("**Caption:** ".toList ++ Text.trim caption)

/-- Convert all captions. -/
def convertCaptions (text : Text) : Text :=
  let text := Scan.replaceCommand "caption".toList ⟨true, 1, 1⟩ (fun arguments =>
    some (renderCaption (arguments.argument 0))) text
  Scan.replaceCommand "captionof".toList ⟨true, 1, 2⟩ (fun arguments =>
    some (renderCaption (arguments.argument 1))) text

/-- A note in parentheses. -/
def renderNote (note : Text) : Text :=
  " (".toList ++ Text.trim note ++ [')']

/-- Convert all notes, and keep the text of links into the document. -/
def convertNotes (text : Text) : Text :=
  let note := fun (arguments : Scan.Arguments) => some (renderNote (arguments.argument 0))
  let text := Scan.replaceCommand "footnote".toList ⟨true, 1, 1⟩ note text
  let text := Scan.replaceCommand "footnotetext".toList ⟨true, 1, 1⟩ note text
  let text := Scan.replaceCommand "footnotemark".toList ⟨true, 1, 0⟩ (fun _ => some []) text
  let text := Scan.replaceCommand "thanks".toList ⟨true, 0, 1⟩ note text
  Scan.replaceCommand "hyperref".toList ⟨true, 1, 1⟩ (fun arguments =>
    some (arguments.argument 0)) text

end LatexMarkdown.Inline

import LatexMarkdown.Html
import LatexMarkdown.Math.Clean
import LatexMarkdown.Scan.Command
import LatexMarkdown.Text.Word

/-!
# Title block

The title, the authors and the date are taken out of the document where they
are declared, and written where the title block is asked for.
-/

namespace LatexMarkdown

/-- What a document says about itself. -/
structure Metadata where
  title : Option Text
  author : Option Text
  date : Option Text
  deriving DecidableEq, Repr

namespace Metadata

/-- Nothing is known. -/
def empty : Metadata :=
  ⟨none, none, none⟩

/-- Whether nothing is known. -/
def isEmpty (metadata : Metadata) : Bool :=
  metadata.title.isNone && metadata.author.isNone && metadata.date.isNone

/-- An argument of the title block without notes and line breaks. -/
def cleanArgument (text : Text) : Text :=
  let text := Scan.replaceCommand "thanks".toList ⟨true, 0, 1⟩ (fun _ => some []) text
  Text.collapseBlanks (Scan.replaceAll Math.rowBreak [' '] text)

/-- A text, unless it is empty. -/
def nonempty? (text : Text) : Option Text :=
  if text.isEmpty then none else some text

/-- The text after a separator of authors. -/
def afterAnd? (text : Text) : Option Text := do
  let rest <- Text.dropFront? "\\and".toList text
  if Text.endsWord rest then some rest else none

/-- The authors, joined by a sign. -/
def readAuthors (text : Text) : Option Text :=
  nonempty? (Text.joinWith " & ".toList
    (((Text.splitWhere afterAnd? text).map cleanArgument).filter fun author => !author.isEmpty))

/-- The date. The present day is none, since the output must not depend on the
clock. -/
def readDate (text : Text) : Option Text :=
  let date := cleanArgument text
  if date = "\\today".toList then none else nonempty? date

/-- Take the title block out of a document. -/
def capture (metadata : Metadata) (text : Text) : Metadata × Text :=
  let (metadata, text) := Scan.editCommand "title".toList ⟨true, 1, 1⟩
    (fun (metadata : Metadata) arguments =>
      ({ metadata with title := nonempty? (cleanArgument (arguments.argument 0)) }, some []))
    metadata text
  let (metadata, text) := Scan.editCommand "author".toList ⟨true, 1, 1⟩
    (fun (metadata : Metadata) arguments =>
      ({ metadata with author := readAuthors (arguments.argument 0) }, some []))
    metadata text
  Scan.editCommand "date".toList ⟨true, 0, 1⟩
    (fun (metadata : Metadata) arguments =>
      ({ metadata with date := readDate (arguments.argument 0) }, some []))
    metadata text

/-- The title block of the output. -/
def render (metadata : Metadata) : Text :=
  let part (before : Text) (content : Option Text) (after : Text) : Text :=
    match content with
    | some content => before ++ content ++ after ++ "\n\n".toList
    | none => []
  "\n\n".toList ++ part "# ".toList metadata.title [] ++
    part "**".toList metadata.author "**".toList ++ part ['*'] metadata.date ['*']

/-- Write the title block where it is asked for; a preview has none. -/
def expandTitle (metadata : Metadata) (preview : Bool) (text : Text) : Text :=
  Scan.replaceCommand "maketitle".toList ⟨true, 0, 0⟩
    (fun _ => some (if preview then [] else metadata.render)) text

end Metadata

end LatexMarkdown

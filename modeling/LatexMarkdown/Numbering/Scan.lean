import LatexMarkdown.Numbering.Registry
import LatexMarkdown.Scan.Enclosed
import LatexMarkdown.Text.Blank
import LatexMarkdown.Warning

/-!
# Numbering a document

All labels are numbered in one reading of the document, and then all
bibliography items. A label counts as the label of a heading if a heading
command starts among the characters just before it.
-/

namespace LatexMarkdown.Numbering

/-- How many characters before a label may hold its heading command. -/
def headingWindow : Nat := 50

/-- The commands that head a part of the document. -/
def headingNames : List Text :=
  ["part", "chapter", "section", "subsection", "subsubsection", "paragraph",
    "subparagraph"].map String.toList

/-- Whether the text starts with a heading command and the opening of its first
argument. -/
def startsWithHeading (text : Text) : Bool :=
  headingNames.any fun name =>
    match Text.dropFront? ('\\' :: name) text with
    | none => false
    | some after =>
      let after := (Text.dropFront? ['*'] after).getD after
      match Text.trimStart after with
      | c :: _ => c = '[' || c = '{'
      | [] => false

/-- Whether a heading command starts somewhere in the text. -/
def containsHeading : Text -> Bool
  | [] => false
  | c :: rest => startsWithHeading (c :: rest) || containsHeading rest

/-- The kind of a label from the characters before it, the nearest first. -/
def kindAfter (before : Text) : LabelKind :=
  if containsHeading (before.take headingWindow).reverse then .heading else .equation

/-- The kind of a label from the whole text before it. -/
def classify (before : Text) : LabelKind :=
  kindAfter before.reverse

/-- The key of the label at the start of the text, and the text after it. -/
def readLabel (text : Text) : Option (Text × Text) := do
  let after <- Text.dropFront? "\\label".toList text
  Scan.readEnclosed '{' '}' (Text.trimStart after)

/-- Drop every label. -/
def dropLabels (text : Text) : Text :=
  Scan.substitute (fun suffix => (readLabel suffix).map fun (_, rest) => ([], rest)) text

/-- The key of the bibliography item at the start of the text, and the text
after it. -/
def readItem (text : Text) : Option (Text × Text) := do
  let after <- Text.dropFront? "\\bibitem".toList text
  Scan.readEnclosed '{' '}' (Text.trimStart (Scan.skipEnclosed '[' ']' after))

/-- The keys that a reader finds from left to right, each with the characters
before its match, the nearest first. The next `covered` characters belong to a
match that was found. -/
def keysFrom (read : Text -> Option (Text × Text)) :
    (before : Text) -> (covered : Nat) -> Text -> List (Text × Text)
  | _, _, [] => []
  | before, covered + 1, c :: rest => keysFrom read (c :: before) covered rest
  | before, 0, c :: rest =>
    match read (c :: rest) with
    | some (key, after) =>
      (before, Text.trim key) ::
        keysFrom read (c :: before) ((c :: rest).length - after.length - 1) rest
    | none => keysFrom read (c :: before) 0 rest

/-- The keys of all labels of a document with what stands before them. -/
def labelKeys (text : Text) : List (Text × Text) :=
  keysFrom readLabel [] 0 text

/-- The keys of all bibliography items of a document. -/
def itemKeys (text : Text) : List Text :=
  (keysFrom readItem [] 0 text).map Prod.snd

/-- The numbers of a document and the warnings about keys declared again. -/
structure Numbers where
  labels : LabelRegistry
  citations : CitationRegistry
  warnings : List Warning
  deriving DecidableEq, Repr

namespace Numbers

/-- Nothing is numbered. -/
def empty : Numbers :=
  ⟨.empty, .empty, []⟩

/-- Warn about a key if it was declared before. -/
def warnIf (repeated : Bool) (key : Text) (warnings : List Warning) : List Warning :=
  if repeated then warnings ++ [.about .duplicateLabel key] else warnings

/-- Number one more label. -/
def addLabel (numbers : Numbers) (label : Text × Text) : Numbers :=
  let (labels, repeated) := numbers.labels.declare label.2 (kindAfter label.1)
  { numbers with labels, warnings := warnIf repeated label.2 numbers.warnings }

/-- Number one more bibliography item. -/
def addItem (numbers : Numbers) (key : Text) : Numbers :=
  let (citations, repeated) := numbers.citations.declare key
  { numbers with citations, warnings := warnIf repeated key numbers.warnings }

end Numbers

/-- Number all labels, and then all bibliography items. -/
def scan (text : Text) : Numbers :=
  (itemKeys text).foldl Numbers.addItem ((labelKeys text).foldl Numbers.addLabel Numbers.empty)

end LatexMarkdown.Numbering

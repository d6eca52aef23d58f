import LatexMarkdown.Numbering.Scan
import LatexMarkdown.Scan.Command

/-!
# References and citations

Every reference is replaced by the number of its label and every citation by
the number of its bibliography item. Unknown keys leave question marks and a
warning. Labels themselves leave nothing.
-/

namespace LatexMarkdown.Numbering

/-- The commands that cite bibliography items. -/
def citationNames : List Text :=
  ["cite", "citep", "citet", "citealp", "parencite", "textcite", "autocite"].map String.toList

/-- The commands that refer to labels. -/
def referenceNames : List Text :=
  ["ref", "autoref", "cref", "Cref"].map String.toList

/-- What stands for a label that is not known. -/
def unknownLabel : Text :=
  "??".toList

/-- What stands for a bibliography item that is not known. -/
def unknownItem : Text :=
  ['?']

/-- What stands for a page, since the output has none. -/
def unknownPage : Text :=
  "[p. ?]".toList

/-- The keys in a list separated by commas. -/
def splitKeys (text : Text) : List Text :=
  ((Text.splitOn ',' text).map Text.trim).filter fun key => !key.isEmpty

/-- What stands for a label. -/
def resolveLabel (labels : LabelRegistry) (warnings : List Warning) (key : Text) :
    List Warning × Text :=
  match labels.find? key with
  | some label => (warnings, label.render)
  | none => (warnings ++ [.about .unresolvedReference key], unknownLabel)

/-- What stands for a bibliography item. -/
def resolveItem (citations : CitationRegistry) (warnings : List Warning) (key : Text) :
    List Warning × Text :=
  match citations.find? key with
  | some number => (warnings, Text.ofNat number)
  | none => (warnings ++ [.about .unresolvedCitation key], unknownItem)

/-- A note with its blanks trimmed, unless nothing is left. -/
def note? (text : Text) : Option Text :=
  if (Text.trim text).isEmpty then none else some (Text.trim text)

/-- A citation in brackets. One option is a note after the numbers; of two, the
first stands before them. -/
def renderCitation (citations : CitationRegistry) (warnings : List Warning)
    (arguments : Scan.Arguments) : List Warning × Text :=
  let (warnings, numbers) :=
    Scan.mapThread (resolveItem citations) warnings (splitKeys (arguments.argument 0))
  let body := Text.joinWith ", ".toList numbers
  let (before, after) := match arguments.option? 0, arguments.option? 1 with
    | some before, some after => (note? before, note? after)
    | some after, none => (none, note? after)
    | none, _ => (none, none)
  let body := match before with
    | some before => before ++ ' ' :: body
    | none => body
  let body := match after with
    | some after => body ++ ", ".toList ++ after
    | none => body
  (warnings, '[' :: body ++ [']'])

/-- The numbers of the labels with the keys in a list. -/
def renderReference (labels : LabelRegistry) (warnings : List Warning)
    (arguments : Scan.Arguments) : List Warning × Text :=
  let (warnings, values) :=
    Scan.mapThread (resolveLabel labels) warnings (splitKeys (arguments.argument 0))
  (warnings, Text.joinWith ", ".toList values)

/-- The number of a label in exactly one pair of parentheses. -/
def renderEquationReference (labels : LabelRegistry) (warnings : List Warning)
    (arguments : Scan.Arguments) : List Warning × Text :=
  let (warnings, value) := resolveLabel labels warnings (Text.trim (arguments.argument 0))
  if value.head? = some '(' then (warnings, value) else (warnings, '(' :: value ++ [')'])

/-- Edit a command by an answer that always gives a text. -/
def editAlways {σ : Type} (name : Text) (maxOptions required : Nat)
    (answer : σ -> Scan.Arguments -> σ × Text) (state : σ) (text : Text) : σ × Text :=
  Scan.editCommand name ⟨true, maxOptions, required⟩ (fun state arguments =>
    let (state, replacement) := answer state arguments
    (state, some replacement)) state text

/-- Resolve all citations and references of a text, and drop its labels. New
warnings come after the given ones. -/
def resolveReferences (labels : LabelRegistry) (citations : CitationRegistry)
    (warnings : List Warning) (text : Text) : List Warning × Text :=
  let (warnings, text) := citationNames.foldl (fun (warnings, text) name =>
    editAlways name 2 1 (renderCitation citations) warnings text) (warnings, text)
  let (warnings, text) := referenceNames.foldl (fun (warnings, text) name =>
    editAlways name 0 1 (renderReference labels) warnings text) (warnings, text)
  let (warnings, text) :=
    editAlways "eqref".toList 0 1 (renderEquationReference labels) warnings text
  let (warnings, text) :=
    editAlways "pageref".toList 0 1 (fun warnings _ => (warnings, unknownPage)) warnings text
  (warnings, dropLabels text)

end LatexMarkdown.Numbering

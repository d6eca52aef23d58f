import LatexMarkdown.Math.Clean
import LatexMarkdown.Options.Basic
import LatexMarkdown.Scan.Delimited

/-!
# Display and inline formulas

Each kind of formula is written in one of three forms: inline between single
dollars, on display between double dollars, or on display as a group of rows.
A numbered formula carries the number of its first known label.
-/

namespace LatexMarkdown.Math

/-- How the formula of an environment is written. -/
inductive Form where
  /-- One formula on display. -/
  | display
  /-- Rows on display, in the environment of that name. -/
  | group (name : String)
  deriving DecidableEq, Repr

/-- A kind of environment for formulas. -/
structure Family where
  name : String
  form : Form
  required : Nat
  numbered : Bool
  deriving DecidableEq, Repr

/-- The environments for formulas, in the order in which they are looked for. -/
def families : List Family :=
  [⟨"equation", .display, 0, true⟩, ⟨"equation*", .display, 0, false⟩,
    ⟨"displaymath", .display, 0, false⟩, ⟨"eqnarray", .group "aligned", 0, false⟩,
    ⟨"eqnarray*", .group "aligned", 0, false⟩, ⟨"subeqnarray", .group "aligned", 0, false⟩,
    ⟨"align", .group "aligned", 0, false⟩, ⟨"align*", .group "aligned", 0, false⟩,
    ⟨"flalign", .group "aligned", 0, false⟩, ⟨"flalign*", .group "aligned", 0, false⟩,
    ⟨"alignat", .group "aligned", 1, false⟩, ⟨"alignat*", .group "aligned", 1, false⟩,
    ⟨"gather", .group "gathered", 0, false⟩, ⟨"gather*", .group "gathered", 0, false⟩,
    ⟨"multline", .group "multline", 0, false⟩, ⟨"multline*", .group "multline", 0, false⟩]

/-- The brackets of formulas on display. -/
def brackets : Scan.Delimiters :=
  ⟨"\\[".toList, "\\]".toList, by decide, by decide⟩

/-- The double dollars of formulas on display. -/
def doubleDollars : Scan.Delimiters :=
  ⟨"$$".toList, "$$".toList, by decide, by decide⟩

/-- The parentheses of inline formulas. -/
def parentheses : Scan.Delimiters :=
  ⟨"\\(".toList, "\\)".toList, by decide, by decide⟩

/-- Lines between double dollars, on lines of their own. -/
def displayed (content : Text) : Text :=
  "\n$$\n".toList ++ content ++ "\n$$\n".toList

/-- An inline formula. -/
def inlined (content : Text) : Text :=
  '$' :: content ++ ['$']

/-- A formula on display. In a preview it stands in the line. -/
def renderDisplay (preview : Bool) (tag : Option Nat) (body : Text) : Text :=
  if preview then inlined (Text.collapseBlanks body)
  else match tag with
    | some number =>
      displayed (Text.trim body ++ " \\tag".toList ++ '{' :: Text.ofNat number ++ ['}'])
    | none => displayed (Text.trim body)

/-- The number of the first label in a formula that is known. -/
def tagOf (labels : LabelRegistry) (body : Text) : Option Nat :=
  (Numbering.labelKeys body).findSome? fun (_, key) =>
    (labels.find? key).map LabelNumber.number

/-- Rows on display, in an environment of their own. -/
def renderGroup (name : String) (rows : Text) : Text :=
  displayed (command "begin" [name.toList] ++ '\n' :: Text.trim rows ++ '\n' ::
    command "end" [name.toList])

/-- Whether the rows of a family separate a relation from both of its sides. -/
def Family.hasRelationColumn (family : Family) : Bool :=
  Text.contains "eqnarray".toList family.name.toList

/-- What a preview shows of a group of rows. -/
def groupPreview : Text :=
  "[ecuaciones]".toList

/-- The formula of an environment, written out. -/
def Family.render (family : Family) (colors : ColorTable) (labels : LabelRegistry)
    (preview : Bool) (body : Text) : Text :=
  let cleaned := clean colors body
  match family.form with
  | .display =>
    renderDisplay preview (if family.numbered then tagOf labels body else none) cleaned
  | .group name =>
    if preview then groupPreview
    else
      let rows := Scan.substitute readNoNumber cleaned
      renderGroup name (if family.hasRelationColumn then collapseColumns rows else rows)

/-- The inline formula between single dollars, written out. -/
def renderInline (colors : ColorTable) (body : Text) : Text :=
  inlined (Text.trim (clean colors body))

end LatexMarkdown.Math

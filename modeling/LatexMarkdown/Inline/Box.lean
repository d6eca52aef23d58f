import LatexMarkdown.Block.Region
import LatexMarkdown.Html
import LatexMarkdown.Length
import LatexMarkdown.Scan.Command

/-!
# Boxes, rules and fills

Boxes become elements with a style of the same look. Rules are empty elements
with a size, and fills empty elements that grow.
-/

namespace LatexMarkdown.Inline

/-- How the text in a box of a given width is aligned. -/
def boxAlignment (option : Option Text) : Text :=
  match option.map Text.trim with
  | some ['l'] => "left".toList
  | some ['r'] => "right".toList
  | some ['s'] => "justify".toList
  | _ => "center".toList

/-- Properties of a style, one after another. -/
def style (properties : List Text) : Text :=
  Text.joinWith [' '] properties

/-- The properties of a framed box. -/
def framed : List Text :=
  [Html.property "border" "1px solid".toList, Html.property "padding" "2px 4px".toList]

/-- The property of a box whose text stays in one line. -/
def unbroken : List Text :=
  [Html.property "white-space" "nowrap".toList]

/-- The property of a box that stands in a line like a word. -/
def inLine : Text :=
  Html.property "display" "inline-block".toList

/-- A property with a length as it is written. -/
def lengthProperty (name : String) (length : Text) : Text :=
  Html.property name (Length.convert length)

/-- A box whose first option may give a width, and whose second one an
alignment. -/
def renderBox (properties : List Text) (arguments : Scan.Arguments) : Text :=
  let content := Text.trim (arguments.argument 0)
  match arguments.option? 0 with
  | some width =>
    Html.styled "span"
      (style (inLine :: properties ++ [lengthProperty "width" width,
        Html.property "text-align" (boxAlignment (arguments.option? 1))])) content
  | none => Html.styled "span" (style properties) content

/-- A box of paragraphs. -/
def renderParagraphBox (arguments : Scan.Arguments) : Text :=
  Html.styled "div"
    (style [inLine, lengthProperty "width" (arguments.argument 0),
      Html.property "vertical-align" (Block.verticalAlignment (arguments.option? 0))])
    (Text.trim (arguments.argument 1))

/-- A raised box. -/
def renderRaisedBox (arguments : Scan.Arguments) : Text :=
  Html.styled "span"
    (style [Html.property "position" "relative".toList,
      lengthProperty "bottom" (arguments.argument 0)])
    (Text.trim (arguments.argument 1))

/-- A rule, which an option may raise. -/
def renderRule (arguments : Scan.Arguments) : Text :=
  let raise := match arguments.option? 0 with
    | some raise =>
      [Html.property "position" "relative".toList, lengthProperty "bottom" raise]
    | none => []
  Html.styled "span"
    (style ([inLine, lengthProperty "width" (arguments.argument 0),
      lengthProperty "height" (arguments.argument 1),
      Html.property "background" "currentColor".toList] ++ raise)) []

/-- The commands of boxes and rules: the name, how many options and arguments it
takes, and what it becomes. -/
def boxCommands : List (Text × Scan.Signature × (Scan.Arguments -> Text)) :=
  [("fbox".toList, ⟨true, 0, 1⟩, renderBox framed),
    ("framebox".toList, ⟨true, 2, 1⟩, renderBox framed),
    ("mbox".toList, ⟨true, 0, 1⟩, renderBox unbroken),
    ("makebox".toList, ⟨true, 2, 1⟩, renderBox unbroken),
    ("parbox".toList, ⟨true, 3, 2⟩, renderParagraphBox),
    ("raisebox".toList, ⟨true, 2, 2⟩, renderRaisedBox),
    ("rule".toList, ⟨true, 1, 2⟩, renderRule)]

/-- An empty element that grows, at least as wide as a length. -/
def renderFill (width : String) (properties : List Text) : Text :=
  Html.styled "span"
    (style ([inLine, Html.property "min-width" width.toList, Html.property "flex" ['1']] ++
      properties)) []

/-- A fill of empty space. -/
def blankFill : Text :=
  renderFill "1em" []

/-- A line across the page. -/
def pageRule : Text :=
  Html.paragraph "<hr>".toList

/-- The commands of fills, and what they become, in the order in which they are
looked for. -/
def fills : List (Text × Text) :=
  [("hrulefill".toList, renderFill "2em" [Html.property "border-bottom" "1px solid".toList]),
    ("dotfill".toList, renderFill "2em" [Html.property "border-bottom" "1px dotted".toList]),
    ("hfill".toList, blankFill), ("hrule".toList, pageRule)]

/-- Convert all boxes, rules and fills. -/
def convertBoxes (text : Text) : Text :=
  let text := boxCommands.foldl (fun text (name, signature, render) =>
    Scan.replaceCommand name signature (fun arguments => some (render arguments)) text) text
  fills.foldl (fun text (name, fill) => Scan.replaceControlWord name fill text) text

end LatexMarkdown.Inline

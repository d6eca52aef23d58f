import LatexMarkdown.Color
import LatexMarkdown.Scan.Declaration
import LatexMarkdown.Scan.Enclosed
import LatexMarkdown.Style
import LatexMarkdown.Text.Word
import LatexMarkdown.Warning

/-!
# Styles and colours in running text

Commands style their argument, and declarations the rest of their group. A
colour switch outside any group opens an element that nothing closes, which is
reported. Other switches outside groups are dropped.
-/

namespace LatexMarkdown.Inline

/-- The colour that the option and an argument of a command name. -/
def colorOf (colors : ColorTable) (arguments : Scan.Arguments) (index : Nat) : Text :=
  colors.resolveInModel (arguments.option? 0) (arguments.argument index)

/-- Convert the commands that style their argument. -/
def convertStyles (text : Text) : Text :=
  Style.commands.foldl (fun text (name, style) =>
    Scan.replaceCommand name ⟨true, 0, 1⟩ (fun arguments =>
      some (style.wrap (arguments.argument 0))) text) text

/-- The padding of a coloured box, as the end of a style. -/
def boxPadding : Text :=
  " padding: 0 2px;".toList

/-- Convert the commands that colour their argument. -/
def convertColors (colors : ColorTable) (text : Text) : Text :=
  let text := Scan.replaceCommand "textcolor".toList ⟨true, 1, 2⟩ (fun arguments =>
    some (Html.styled "span" (Html.property "color" (colorOf colors arguments 0))
      (arguments.argument 1))) text
  let text := Scan.replaceCommand "colorbox".toList ⟨true, 1, 2⟩ (fun arguments =>
    some (Html.styled "span"
      (Html.property "background-color" (colorOf colors arguments 0) ++ boxPadding)
      (arguments.argument 1))) text
  Scan.replaceCommand "fcolorbox".toList ⟨true, 1, 3⟩ (fun arguments =>
    some (Html.styled "span"
      (Html.property "border" ("1px solid ".toList ++ colorOf colors arguments 0) ++ ' ' ::
        Html.property "background-color" (colorOf colors arguments 1) ++ boxPadding)
      (arguments.argument 2))) text

/-- The colour at the start of the rest of a group, perhaps in a model, and the
text after it. -/
def readGroupColor (colors : ColorTable) (rest : Text) : Option (Text × Text) :=
  let text := Text.skipGap rest
  let (model, text) := match Scan.readBracketed text with
    | some (model, after) => (some model, Text.skipGap after)
    | none => (none, text)
  (Scan.readBraced text).map fun (spec, after) => (colors.resolveInModel model spec, after)

/-- What a declaration makes of the rest of its group. -/
def renderDeclaration (colors : ColorTable) (declaration : Scan.Declaration) : Option Text :=
  match KeyedList.find? Style.declarations declaration.name with
  | some style => some (style.wrap declaration.rest)
  | none =>
    match KeyedList.find? Style.sizes declaration.name with
    | some points =>
      some (Html.styled "span" ("font-size: ".toList ++ Text.ofNat points ++ "pt".toList)
        (Text.trim declaration.rest))
    | none =>
      if declaration.name = "color".toList then
        (readGroupColor colors declaration.rest).map fun (color, content) =>
          Html.styled "span" (Html.property "color" color) (Text.trim content)
      else none

/-- Open an element for every colour switch; the colours are collected as they
are written. -/
def openColorSwitches (colors : ColorTable) (text : Text) : List Text × Text :=
  Scan.editCommand "color".toList ⟨true, 1, 1⟩ (fun switches arguments =>
    (switches ++ [Text.trim (arguments.argument 0)],
      some (Html.openStyled "span" (Html.property "color" (colorOf colors arguments 0)))))
    [] text

/-- The switches of the font, longer names before the shorter ones they start
with. -/
def fontSwitches : List Text :=
  ["bfseries", "itshape", "slshape", "ttfamily", "sffamily", "scshape", "rmfamily", "upshape",
    "mdseries", "normalfont", "bf", "it", "em", "sl", "tt", "sf", "sc", "rm"].map String.toList

/-- A switch as a whole word, with the spaces and tabs after it: nothing is
written for it. -/
def readSwitch (names : List Text) (text : Text) : Option (Text × Text) := do
  let name <- Text.dropFront? ['\\'] text
  let rest <- names.findSome? fun switch =>
    (Text.dropFront? switch name).filter Text.endsWord
  some ([], rest.dropWhile Text.isSpaceOrTab)

/-- Drop the switches of size and font that are left. -/
def dropSwitches (text : Text) : Text :=
  Scan.substitute (readSwitch fontSwitches)
    (Scan.substitute (readSwitch (Style.sizes.map Prod.fst)) text)

/-- Convert all styles and colours, with a warning for every colour switch. -/
def convertFormat (colors : ColorTable) (text : Text) : List Warning × Text :=
  let text := convertColors colors (convertStyles text)
  let text := Scan.replaceDeclaration (renderDeclaration colors) text
  let (switches, text) := openColorSwitches colors text
  (switches.map (Warning.about .unclosedColorSwitch), dropSwitches text)

end LatexMarkdown.Inline

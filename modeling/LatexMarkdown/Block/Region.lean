import LatexMarkdown.Html
import LatexMarkdown.Length
import LatexMarkdown.Scan.Environment
import LatexMarkdown.Text.Blank

/-!
# Floats and regions

Floats are dissolved into the text around them. Boxed and aligned regions become
elements with a style. Both are converted from the outside in.
-/

namespace LatexMarkdown.Block

/-- A kind of float. -/
structure FloatFamily where
  name : String
  maxOptions : Nat
  required : Nat
  deriving DecidableEq, Repr

/-- The kinds of floats, in the order in which they are looked for. -/
def floats : List FloatFamily :=
  [⟨"figure", 1, 0⟩, ⟨"figure*", 1, 0⟩, ⟨"table", 1, 0⟩, ⟨"table*", 1, 0⟩, ⟨"wrapfigure", 2, 2⟩]

/-- Dissolve floats down to a nesting depth. -/
def convertFloatsAt : (depth : Nat) -> Text -> Text
  | 0, text => text
  | depth + 1, text =>
    let text := floats.foldl (fun text family =>
      Scan.replaceEnvironment family.name.toList family.maxOptions family.required
        (fun environment => some
          (Html.paragraph (Text.trim (convertFloatsAt depth environment.body)))) text) text
    Scan.replaceControlWord "centering".toList [] text

/-- Dissolve all floats. Each takes two backslashes of the text, so its length
bounds how deep they nest. -/
def convertFloats (text : Text) : Text :=
  convertFloatsAt (text.length + 1) text

/-- The regions that only align their text, with the alignment. -/
def alignedRegions : List (Text × Text) :=
  [("center", "center"), ("flushleft", "left"), ("flushright", "right")].map
    fun (name, alignment) => (name.toList, alignment.toList)

/-- The vertical alignment that an option asks for. -/
def verticalAlignment (option : Option Text) : Text :=
  match option.map Text.trim with
  | some ['b'] => "bottom".toList
  | some ['c'] | some ['m'] => "middle".toList
  | _ => "top".toList

/-- An element around a region, in a paragraph of its own. -/
def renderRegion (style content : Text) : Text :=
  Html.paragraph (Html.styled "div" style (Html.paragraph content))

/-- The style of a boxed region. -/
def boxStyle (width verticalAlignment : Text) : Text :=
  Text.joinWith [' '] [Html.property "display" "inline-block".toList,
    Html.property "width" width, Html.property "border" "1px dashed #999".toList,
    Html.property "padding" "4px".toList, Html.property "vertical-align" verticalAlignment]

/-- Convert regions down to a nesting depth. -/
def convertRegionsAt : (depth : Nat) -> Text -> Text
  | 0, text => text
  | depth + 1, text =>
    let text := Scan.replaceEnvironment "minipage".toList 3 1 (fun environment =>
      some (renderRegion
        (boxStyle (Length.convert (environment.arguments.argument 0))
          (verticalAlignment (environment.arguments.option? 0)))
        (Text.trim (convertRegionsAt depth environment.body)))) text
    alignedRegions.foldl (fun text (name, alignment) =>
      Scan.replaceEnvironment name 0 0 (fun environment =>
        some (renderRegion (Html.property "text-align" alignment)
          (Text.trim (convertRegionsAt depth environment.body)))) text) text

/-- Convert all regions. Each takes two backslashes of the text, so its length
bounds how deep they nest. -/
def convertRegions (text : Text) : Text :=
  convertRegionsAt (text.length + 1) text

end LatexMarkdown.Block

import LatexMarkdown.KeyedList
import LatexMarkdown.Number.Decimal
import LatexMarkdown.Text.Basic
import LatexMarkdown.Text.Blank

/-!
# Colours

A colour is written as a name, or in a model whose components give a value of
the form `#rrggbb`. Definitions belong to one document; names without one fall
back on a small palette, and unknown names stand for themselves.
-/

namespace LatexMarkdown

namespace Color

/-- The colours that need no definition. -/
def palette : KeyedList Text :=
  [("blue", "#1e88e5"), ("green", "#43a047"), ("red", "#e53935"), ("gray", "#757575"),
    ("orange", "#fb8c00"), ("purple", "#8e24aa")].map
      fun (name, value) => (name.toList, value.toList)

/-- Three channels in the form `#rrggbb`. -/
def hexTriplet (red green blue : Nat) : Text :=
  '#' :: (Text.hexByte red ++ Text.hexByte green ++ Text.hexByte blue)

/-- A ratio times another in double precision; both are at most 255 here, so the
product never leaves the doubles. -/
def product (left right : Ratio) : Ratio :=
  (Ratio.nearestDouble (Ratio.mul left right)).getD ⟨0, 1⟩

/-- A fraction of the full intensity as a channel. The undefined number is no
intensity at all. -/
def fractionChannel (component : Text) : Option Nat :=
  (Decimal.read? component).map fun reading =>
    match reading.clamp (Ratio.ofNat 1) with
    | some fraction => (product fraction (Ratio.ofNat 255)).roundUp
    | none => 0

/-- A number from 0 to 255 as a channel. -/
def byteChannel (component : Text) : Option Nat :=
  (Decimal.read? component).map fun reading =>
    match reading.clamp (Ratio.ofNat 255) with
    | some value => value.roundUp
    | none => 0

/-- What an ink leaves of a channel, given the amount of black. -/
def inkChannel (ink black : Option Ratio) : Nat :=
  match ink, black with
  | some ink, some black =>
    let left := (Ratio.nearestDouble ink.complement).getD ⟨0, 1⟩
    let light := (Ratio.nearestDouble black.complement).getD ⟨0, 1⟩
    (product (product (Ratio.ofNat 255) left) light).roundUp
  | _, _ => 0

/-- An amount of ink, between none and all of it. -/
def inkAmount (component : Text) : Option (Option Ratio) :=
  (Decimal.read? component).map fun reading => reading.clamp (Ratio.ofNat 1)

/-- The value of a colour that is given in a model, if the model is known and
the components fit it. -/
def inModel? (model spec : Text) : Option Text :=
  let components := (Text.splitOn ',' spec).map Text.trim
  let model := Text.trim model
  if model = "rgb".toList then
    match components with
    | [red, green, blue] => do
      some (hexTriplet (<- fractionChannel red) (<- fractionChannel green)
        (<- fractionChannel blue))
    | _ => none
  else if model = "RGB".toList then
    match components with
    | [red, green, blue] => do
      some (hexTriplet (<- byteChannel red) (<- byteChannel green) (<- byteChannel blue))
    | _ => none
  else if model = "HTML".toList || model = "html".toList then
    let digits := (Text.trim spec).dropWhile (· = '#')
    if digits.length = 6 && digits.all Text.isHexDigit then some ('#' :: digits.map Char.toLower)
    else none
  else if model = "gray".toList then
    match components with
    | [gray] => (fractionChannel gray).map fun channel => hexTriplet channel channel channel
    | _ => none
  else if model = "cmyk".toList then
    match components with
    | [cyan, magenta, yellow, black] => do
      let cyan <- inkAmount cyan
      let magenta <- inkAmount magenta
      let yellow <- inkAmount yellow
      let black <- inkAmount black
      some (hexTriplet (inkChannel cyan black) (inkChannel magenta black)
        (inkChannel yellow black))
    | _ => none
  else none

end Color

/-- The colours that a document defines, by name. -/
structure ColorTable where
  defined : KeyedList Text
  deriving DecidableEq, Repr

namespace ColorTable

/-- No colour is defined. -/
def empty : ColorTable :=
  ⟨[]⟩

/-- The value of a colour expression. A mixture `name!percent` counts as the
colour it starts with. -/
def resolve (colors : ColorTable) (expression : Text) : Text :=
  let base := Text.trim ((Text.trim expression).takeWhile (· ≠ '!'))
  match KeyedList.find? colors.defined base with
  | some value => value
  | none => (KeyedList.find? Color.palette base).getD base

/-- Give a name the colour of a model; nothing happens if that is unreadable,
and the answer says whether it was read. -/
def define (colors : ColorTable) (name model spec : Text) : ColorTable × Bool :=
  match Color.inModel? model spec with
  | some value => (⟨KeyedList.put colors.defined (Text.trim name) value⟩, true)
  | none => (colors, false)

/-- Give a name the present value of another colour expression. -/
def copy (colors : ColorTable) (name other : Text) : ColorTable :=
  ⟨KeyedList.put colors.defined (Text.trim name) (colors.resolve other)⟩

/-- The value of a colour, in a model if one is named. An unreadable colour
stands for itself. -/
def resolveInModel (colors : ColorTable) (model : Option Text) (spec : Text) : Text :=
  match model with
  | some model => (Color.inModel? model spec).getD (Text.trim spec)
  | none => colors.resolve spec

/-- The number of colours that are defined. -/
def size (colors : ColorTable) : Nat :=
  colors.defined.length

end ColorTable

end LatexMarkdown

import LatexMarkdown.Number.Decimal
import LatexMarkdown.Text.Blank

/-!
# Lengths

A length is a part of a page measure or an absolute length in a known unit.
Page measures become percentages of the available space. A length that is
neither becomes one em.
-/

namespace LatexMarkdown.Length

/-- The measures of a page, and whether each is a height. -/
def pageMeasures : List (Text × Bool) :=
  [("textwidth", false), ("linewidth", false), ("columnwidth", false), ("hsize", false),
    ("paperwidth", false), ("textheight", true), ("paperheight", true)].map
      fun (name, height) => (name.toList, height)

/-- The units of absolute lengths, each with the unit it is written in. -/
def units : List (Text × Text) :=
  [("pt", "pt"), ("cm", "cm"), ("mm", "mm"), ("in", "in"), ("em", "em"), ("ex", "ex"),
    ("px", "px"), ("bp", "pt")].map fun (unit, written) => (unit.toList, written.toList)

/-- A number that may be written before a length: digits, and after a point
digits again. -/
def splitNumber (text : Text) : Text × Text :=
  let whole := text.takeWhile Char.isDigit
  match text.dropWhile Char.isDigit with
  | '.' :: rest => (whole ++ '.' :: rest.takeWhile Char.isDigit, rest.dropWhile Char.isDigit)
  | rest => (whole, rest)

/-- A factor as a percentage. A missing factor counts as one. -/
def percentage (factor : Text) : Text :=
  let factor := if factor.isEmpty || factor = ['.'] then some (Ratio.ofNat 1)
    else (Decimal.readMagnitude? factor).getD (some (Ratio.ofNat 1))
  match factor.bind fun factor => Ratio.nearestDouble (Ratio.mul factor (Ratio.ofNat 100)) with
  | some percent => Decimal.twoPlaces percent
  | none => "inf".toList

/-- A part of a page measure. -/
def relative? (text : Text) : Option Text := do
  let (factor, rest) := splitNumber text
  let name <- Text.dropFront? ['\\'] (Text.trimStart rest)
  let (_, height) <- pageMeasures.find? fun (measure, _) => measure = name
  some (percentage factor ++ (if height then "vh".toList else ['%']))

/-- An absolute length in a known unit. -/
def absolute? (text : Text) : Option Text := do
  let (sign, unsigned) := match Text.dropFront? ['-'] text with
    | some unsigned => (['-'], unsigned)
    | none => ([], text)
  let (number, rest) := splitNumber unsigned
  let (_, written) <- units.find? fun (unit, _) => unit = Text.trimStart rest
  if number.getLast?.any Char.isDigit then some (sign ++ number ++ written) else none

/-- A length in the form that styles take. -/
def convert (length : Text) : Text :=
  let text := Text.trim length
  if text = "\\fill".toList || Text.startsWith "\\stretch".toList text then "auto".toList
  else ((relative? text) <|> (absolute? text)).getD "1em".toList

end LatexMarkdown.Length

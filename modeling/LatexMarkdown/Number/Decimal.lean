import LatexMarkdown.Number.Ratio
import LatexMarkdown.Text.Basic

/-!
# Decimal numbers in text

A count is a natural number of at most 64 bits, written in decimal digits. Any
other number is read as an optional sign, digits with at most one point, and an
optional decimal exponent; the names of infinity and of the undefined number
are read in any case. What is read is the nearest double.
-/

namespace LatexMarkdown

namespace Count

/-- The greatest count. -/
def greatest : Nat := (1 <<< 64) - 1

/-- The count that a whole text spells. Without any digit, and beyond the
greatest count, there is none. -/
def ofDigits? (digits : Text) : Option Nat :=
  if digits.isEmpty || !digits.all Char.isDigit || greatest < Text.digitsValue digits then none
  else some (Text.digitsValue digits)

end Count

/-- A number as read: undefined, or a sign with a magnitude. Without a ratio the
magnitude is beyond all doubles. -/
inductive Reading where
  | undefined
  | signed (negative : Bool) (magnitude : Option Ratio)
  deriving DecidableEq, Repr

namespace Decimal

/-- The double nearest to `significand * 10 ^ exponent`. Exponents far outside
the range of doubles are decided without writing the power out. -/
def nearest (significand : Nat) (exponent : Int) : Option Ratio :=
  let size : Int := (Nat.toDigits 10 significand).length + exponent
  if significand = 0 || size < -400 then some ⟨0, 1⟩
  else if 400 < size then none
  else if 0 ≤ exponent then Ratio.nearestDouble ⟨significand * Nat.pow 10 exponent.toNat, 1⟩
  else Ratio.nearestDouble ⟨significand, Nat.pow 10 (-exponent).toNat⟩

/-- A decimal exponent after its letter: a sign and at least one digit. -/
def readExponent? (text : Text) : Option Int :=
  let (negative, digits) := match text with
    | '+' :: digits => (false, digits)
    | '-' :: digits => (true, digits)
    | digits => (false, digits)
  if digits.isEmpty || !digits.all Char.isDigit then none
  else if negative then some (-(Text.digitsValue digits : Int))
  else some (Text.digitsValue digits)

/-- The magnitude of digits with at most one point, then an optional exponent. -/
def readMagnitude? (text : Text) : Option (Option Ratio) :=
  let whole := text.takeWhile Char.isDigit
  let afterWhole := text.dropWhile Char.isDigit
  let (fraction, afterFraction) := match afterWhole with
    | '.' :: rest => (rest.takeWhile Char.isDigit, rest.dropWhile Char.isDigit)
    | rest => ([], rest)
  if whole.isEmpty && fraction.isEmpty then none
  else
    let exponent? := match afterFraction with
      | [] => some 0
      | c :: rest => if c = 'e' || c = 'E' then readExponent? rest else none
    exponent?.map fun exponent =>
      nearest (Text.digitsValue (whole ++ fraction)) (exponent - fraction.length)

/-- Read a whole text as a number. -/
def read? (text : Text) : Option Reading :=
  let (negative, unsigned) := match text with
    | '+' :: unsigned => (false, unsigned)
    | '-' :: unsigned => (true, unsigned)
    | unsigned => (false, unsigned)
  let name := unsigned.map Char.toLower
  if name = "inf".toList || name = "infinity".toList then some (.signed negative none)
  else if name = "nan".toList then some .undefined
  else (readMagnitude? unsigned).map (.signed negative)

/-- A ratio with two decimal places, a tie going to the even digit, without the
zeros that end the places and without a point that nothing follows. -/
def twoPlaces (ratio : Ratio) : Text :=
  let hundredths := Ratio.roundEven ⟨ratio.num * 100, ratio.den⟩
  let places := Text.ofNat (hundredths % 100)
  let places := if places.length < 2 then '0' :: places else places
  let places := Text.dropTrailing (· = '0') places
  if places.isEmpty then Text.ofNat (hundredths / 100)
  else Text.ofNat (hundredths / 100) ++ '.' :: places

end Decimal

namespace Reading

/-- Bring a reading between zero and a limit; an undefined number has no place
there. -/
def clamp (limit : Ratio) : Reading -> Option Ratio
  | .undefined => none
  | .signed true _ => some ⟨0, 1⟩
  | .signed false none => some limit
  | .signed false (some magnitude) =>
    if Ratio.atMost magnitude limit then some magnitude else some limit

end Reading

end LatexMarkdown

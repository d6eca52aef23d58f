/-!
# Ratios and the doubles nearest to them

Lengths and colours are computed in double precision: after each operation the
exact ratio is replaced by the nearest double, a tie going to the even one. A
double is a ratio itself, so nothing but ratios of natural numbers is needed.
-/

namespace LatexMarkdown

/-- The quotient of two natural numbers; the lower one is positive wherever a
ratio is built here. -/
structure Ratio where
  num : Nat
  den : Nat
  deriving DecidableEq, Repr

namespace Ratio

/-- A natural number as a ratio. -/
def ofNat (number : Nat) : Ratio :=
  ⟨number, 1⟩

/-- The product of two ratios. -/
def mul (left right : Ratio) : Ratio :=
  ⟨left.num * right.num, left.den * right.den⟩

/-- What a ratio lacks to one, and nothing if it lacks none. -/
def complement (ratio : Ratio) : Ratio :=
  ⟨ratio.den - ratio.num, ratio.den⟩

/-- Whether the left ratio is at most the right one. -/
def atMost (left right : Ratio) : Bool :=
  left.num * right.den ≤ right.num * left.den

/-- The nearest natural number; a tie goes to the even one. -/
def roundEven (ratio : Ratio) : Nat :=
  let quotient := ratio.num / ratio.den
  let remainder := ratio.num % ratio.den
  if ratio.den < 2 * remainder then quotient + 1
  else if 2 * remainder = ratio.den && quotient % 2 = 1 then quotient + 1
  else quotient

/-- The nearest natural number; a tie goes to the greater one. -/
def roundUp (ratio : Ratio) : Nat :=
  (2 * ratio.num + ratio.den) / (2 * ratio.den)

/-- The ratio times a power of two, whose exponent may be negative. -/
def scale (ratio : Ratio) (exponent : Int) : Ratio :=
  if 0 ≤ exponent then ⟨ratio.num <<< exponent.toNat, ratio.den⟩
  else ⟨ratio.num, ratio.den <<< (-exponent).toNat⟩

/-- The exponent of the greatest power of two that is at most a positive ratio. -/
def binaryExponent (ratio : Ratio) : Int :=
  let guess := (Nat.log2 ratio.num : Int) - (Nat.log2 ratio.den : Int)
  if atMost (scale (ofNat 1) guess) ratio then guess else guess - 1

/-- The double nearest to a ratio, a tie going to the double with the even
significand; there is none for a ratio beyond the greatest double. -/
def nearestDouble (ratio : Ratio) : Option Ratio :=
  if ratio.num = 0 then some ⟨0, 1⟩
  else
    let unit : Int := max (binaryExponent ratio - 52) (-1074)
    let double := scale (ofNat (roundEven (scale ratio (-unit)))) unit
    if 1024 ≤ binaryExponent double then none else some double

end Ratio

end LatexMarkdown

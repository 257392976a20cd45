import Jingle.Number.Double

/-!
# Shortest decimal form of double precision numbers

A number is shown by the fewest decimal digits that are read back as the same number, and among
these by the digits nearest to it, the greater ones if two are equally near. The numbers from 1e-4
up to but not including 1e16, and the zeros, are shown with a point and at least one digit on each
side of it. All others are shown with one digit before the point and an exponent.
-/

namespace Jingle.Number

/-- The decimal number `digits * 10 ^ exponent`. -/
structure Decimal where
  digits : Nat
  exponent : Int
  deriving DecidableEq, Repr

/-- The numbers that are read back as one and the same positive number, as an interval of fractions
with one denominator. -/
structure Rounding where
  /-- The lower end, the number itself and the upper end, as numerators. -/
  lower : Nat
  value : Nat
  upper : Nat
  /-- The common denominator. -/
  den : Nat
  /-- Whether the two ends belong to the interval. -/
  closed : Bool

namespace Rounding

/-- The interval of `mantissa * 2 ^ exponent`. Below a power of two the numbers lie twice as close,
except at the least exponent. An end lies halfway to the neighbour and rounds to the even
mantissa. -/
def ofFinite (mantissa : Nat) (exponent : Int) : Rounding :=
  let below := if mantissa = Nat.pow 2 52 ∧ Double.leastExponent < exponent then 1 else 2
  let scale := Nat.pow 2 (exponent - 2).toNat
  { lower := (4 * mantissa - below) * scale
    value := 4 * mantissa * scale
    upper := (4 * mantissa + 2) * scale
    den := Nat.pow 2 (2 - exponent).toNat
    closed := mantissa % 2 = 0 }

/-- Whether the fraction `num / (den * scale)` lies in the interval. -/
def contains (interval : Rounding) (num scale : Nat) : Bool :=
  if interval.closed then
    decide (interval.lower * scale ≤ num) && decide (num ≤ interval.upper * scale)
  else
    decide (interval.lower * scale < num) && decide (num < interval.upper * scale)

/-- The number of digits before the decimal point. It is zero or negative if the first digit other
than zero stands after the point. No number is so small that 340 places do not show such a digit. -/
def magnitude (interval : Rounding) : Int :=
  ((Nat.toDigits 10 (interval.value * Nat.pow 10 340 / interval.den)).length : Int) - 340

/-- The decimal number with the given number of digits that is nearest to the number, among those
in the interval. -/
def nearest? (interval : Rounding) (count : Nat) : Option Decimal :=
  let exponent := interval.magnitude - count
  let scale := Nat.pow 10 (-exponent).toNat
  let unit := interval.den * Nat.pow 10 exponent.toNat
  let down := interval.value * scale / unit
  let up := down + 1
  let belowDown := interval.value * scale - down * unit
  let aboveUp := up * unit - interval.value * scale
  match interval.contains (down * unit) scale, interval.contains (up * unit) scale with
  | true, true => some ⟨if belowDown < aboveUp then down else up, exponent⟩
  | true, false => some ⟨down, exponent⟩
  | false, true => some ⟨up, exponent⟩
  | false, false => none

/-- The decimal number with the fewest digits in the interval. Seventeen digits are always
enough. -/
def shortest (interval : Rounding) : Decimal :=
  ((List.range 17).findSome? fun count => interval.nearest? (count + 1)).getD ⟨0, 0⟩

end Rounding

namespace Decimal

/-- The digits of a decimal number without zeros at the end, and the place of its point: the number
of digits before it, negative if zeros stand between the point and the digits. -/
def figures (decimal : Decimal) : List Char × Int :=
  let digits := Nat.toDigits 10 decimal.digits
  ((digits.reverse.dropWhile (· = '0')).reverse, decimal.exponent + digits.length)

/-- Digits with a point in the given place. -/
def positional (figures : List Char) (point : Int) : List Char :=
  if point ≤ 0 then
    ['0', '.'] ++ List.replicate (-point).toNat '0' ++ figures
  else if figures.length ≤ point then
    figures ++ List.replicate (point.toNat - figures.length) '0' ++ ['.', '0']
  else
    figures.take point.toNat ++ ['.'] ++ figures.drop point.toNat

/-- Digits with a point after the first one, if there are more, and an exponent. -/
def scientific (figures : List Char) (point : Int) : List Char :=
  let places := figures.drop 1
  figures.take 1 ++ (if places.isEmpty then [] else '.' :: places) ++
    'e' :: (toString (point - 1)).toList

/-- A positive decimal number as it is shown. -/
def text (decimal : Decimal) : List Char :=
  let (figures, point) := decimal.figures
  if -3 ≤ point ∧ point ≤ 16 then positional figures point else scientific figures point

end Decimal

namespace Double

/-- A double precision number as it is shown. -/
def text : Double → String
  | .nan => "NaN"
  | .infinite negative => if negative then "-inf" else "inf"
  | .finite negative mantissa exponent =>
    let size :=
      if mantissa = 0 then ['0', '.', '0'] else (Rounding.ofFinite mantissa exponent).shortest.text
    String.ofList (if negative then '-' :: size else size)

end Double

end Jingle.Number

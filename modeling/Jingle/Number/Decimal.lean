import Jingle.Number.Double
import Jingle.Number.Integer

/-!
# Decimal notation of double precision numbers

A number is written with at most one sign, digits with at most one point among or around them, and
an optional exponent after `e` or `E`. The words `inf`, `infinity` and `nan` are numbers too, in
either case of each letter. Only the digits `0` to `9` count.
-/

namespace Jingle.Number

open Text

/-- The exponent at the end of a number. A number without one has the exponent zero. -/
def exponent? : List Char → Option Int
  | [] => some 0
  | mark :: text => if mark = 'e' ∨ mark = 'E' then signed? 10 text else none

/-- The value of a run of digits, zero for the empty run. -/
def digitsValue (digits : List Char) : Nat :=
  (natural? 10 digits).getD 0

/-- The part of a number after its sign, unless it is a word. -/
def unsignedDecimal? (negative : Bool) (text : List Char) : Option Double :=
  let whole := text.takeWhile (isDigitOf 10)
  let rest := text.dropWhile (isDigitOf 10)
  let (places, tail) :=
    match rest with
    | '.' :: rest => (rest.takeWhile (isDigitOf 10), rest.dropWhile (isDigitOf 10))
    | rest => ([], rest)
  let digits := whole ++ places
  if digits.isEmpty then none
  else (exponent? tail).map fun exponent =>
    .ofDecimal negative (digitsValue digits) (exponent - places.length)

/-- The part of a number after its sign. -/
def unsigned? (negative : Bool) (text : List Char) : Option Double :=
  let word := String.ofList (text.map Char.toLower)
  if word = "inf" ∨ word = "infinity" then some (.infinite negative)
  else if word = "nan" then some .nan
  else unsignedDecimal? negative text

/-- The double precision number nearest to a number as it is written. -/
def double? (text : String) : Option Double :=
  match text.toList with
  | '-' :: text => unsigned? true text
  | '+' :: text => unsigned? false text
  | text => unsigned? false text

end Jingle.Number

import Jingle.Text.Digit

/-!
# Integers

An integer is written in radix 16, 2 or 8 after `0x`, `0b` or `0o`, and in radix 10 otherwise.
After that comes at most one sign and at least one digit. Its value fits into 64 bits.
-/

namespace Jingle.Number

open Text

/-- The value of a non-empty sequence of digits of the given radix. -/
def natural? (radix : Nat) (text : List Char) : Option Nat :=
  if text.isEmpty then none
  else (text.mapM (digitOf? radix)).map (List.foldl (fun value digit => value * radix + digit) 0)

/-- The value of digits with at most one sign before them. -/
def signed? (radix : Nat) : List Char → Option Int
  | '-' :: text => (natural? radix text).map fun value => -(value : Int)
  | '+' :: text => (natural? radix text).map fun value => (value : Int)
  | text => (natural? radix text).map fun value => (value : Int)

/-- The radix chosen by the beginning of a text, and the text after that choice. -/
def radixOf : List Char → Nat × List Char
  | '0' :: 'x' :: text => (16, text)
  | '0' :: 'X' :: text => (16, text)
  | '0' :: 'b' :: text => (2, text)
  | '0' :: 'B' :: text => (2, text)
  | '0' :: 'o' :: text => (8, text)
  | '0' :: 'O' :: text => (8, text)
  | text => (10, text)

/-- Whether a value fits into a signed word of 64 bits. -/
def fits (value : Int) : Bool :=
  decide (Int64.minValue.toInt ≤ value) && decide (value ≤ Int64.maxValue.toInt)

/-- The value of an integer as it is written. -/
def integer? (text : String) : Option Int :=
  let (radix, digits) := radixOf text.toList
  (signed? radix digits).filter fits

end Jingle.Number

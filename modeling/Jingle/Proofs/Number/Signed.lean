import Jingle.Proofs.Number.Integer
import Jingle.Proofs.Text.Slice
import Mathlib.Algebra.Group.Int.Defs

/-!
# Integers with a sign

An integer is the mark of a radix, then at most one sign, then digits. The mark may be missing, and
then the digits are decimal. The sign stands behind the mark, and the value of the digits has no
bound. A text is read as an integer exactly if it is one of those that fit into a signed word of 64
bits.

* `Number.SignedDigits` and `Number.Written` say how an integer is written.
* `Number.signed?_eq_some_iff` and `Number.radixOf_cases` treat the sign and the mark.
* `Number.integer?_exact` says which texts are read, and as which integers.
-/

namespace Jingle.Number

open Text
open Token (radixLetters)

/-! ## Signs -/

/-- The text is at most one sign and digits, and together they are the integer. -/
inductive SignedDigits (radix : Nat) : Int → List Char → Prop where
  | bare {n : Nat} {digits : List Char} : Digits radix n digits → SignedDigits radix n digits
  | plus {n : Nat} {digits : List Char} : Digits radix n digits →
      SignedDigits radix n ('+' :: digits)
  | minus {n : Nat} {digits : List Char} : Digits radix n digits →
      SignedDigits radix (-n) ('-' :: digits)

theorem sign_cases (text : List Char) :
    (∃ rest, text = '-' :: rest) ∨ (∃ rest, text = '+' :: rest) ∨ NoSign text := by
  cases text with
  | nil => exact .inr (.inr fun c hc => by cases hc)
  | cons c rest =>
    by_cases hMinus : c = '-'
    · exact .inl ⟨rest, by rw [hMinus]⟩
    · by_cases hPlus : c = '+'
      · exact .inr (.inl ⟨rest, by rw [hPlus]⟩)
      · refine .inr (.inr fun d hd => ?_)
        obtain rfl := Option.some.inj hd
        exact ⟨hMinus, hPlus⟩

section Radix

variable {radix : Nat} (hLeast : 1 < radix) (hMost : radix ≤ 16)

include hLeast hMost

theorem signed?_eq_some_iff {text : List Char} {v : Int} :
    signed? radix text = some v ↔ SignedDigits radix v text := by
  have hDigits {n : Nat} {digits : List Char} :
      natural? radix digits = some n ↔ Digits radix n digits :=
    natural?_eq_some_iff hLeast hMost
  constructor
  · intro h
    rcases sign_cases text with ⟨rest, rfl⟩ | ⟨rest, rfl⟩ | hSign
    · rw [signed?_minus, Option.map_eq_some_iff] at h
      obtain ⟨n, hValue, rfl⟩ := h
      exact .minus (hDigits.mp hValue)
    · rw [signed?_plus, Option.map_eq_some_iff] at h
      obtain ⟨n, hValue, rfl⟩ := h
      exact .plus (hDigits.mp hValue)
    · rw [signed?_of_noSign hSign, Option.map_eq_some_iff] at h
      obtain ⟨n, hValue, rfl⟩ := h
      exact .bare (hDigits.mp hValue)
  · intro h
    cases h with
    | bare h =>
      have hSign := noSign_of_isDigitOf ((exists_digits_iff hLeast hMost).mp ⟨_, h⟩).2
      rw [signed?_of_noSign hSign, hDigits.mpr h]
      rfl
    | plus h =>
      rw [signed?_plus, hDigits.mpr h]
      rfl
    | minus h =>
      rw [signed?_minus, hDigits.mpr h]
      rfl

theorem SignedDigits.ascii {text : List Char} {v : Int} (h : SignedDigits radix v text) :
    ∀ c ∈ text, c.toNat < 0x80 := by
  have hDigits {n : Nat} {digits : List Char} (h : Digits radix n digits) :
      ∀ c ∈ digits, c.toNat < 0x80 :=
    ascii_of_natural? ((natural?_eq_some_iff hLeast hMost).mpr h)
  cases h with
  | bare h => exact hDigits h
  | plus h | minus h => exact List.forall_mem_cons.mpr ⟨by decide, hDigits h⟩

end Radix

/-! ## Marks -/

/-- The text is the mark of a radix, which is none for decimal digits, and the integer in that
radix. -/
inductive Written : Int → List Char → Prop where
  | marked {letter : Char} {radix : Nat} {v : Int} {text : List Char} :
      (letter, radix) ∈ radixLetters → SignedDigits radix v text →
        Written v ('0' :: letter :: text)
  | decimal {v : Int} {text : List Char} : SignedDigits 10 v text → Written v text

theorem radixOf_cases (text : List Char) :
    (∃ letter radix rest, text = '0' :: letter :: rest ∧ (letter, radix) ∈ radixLetters) ∨
      radixOf text = (10, text) := by
  unfold radixOf
  split
  · exact .inl ⟨'x', 16, _, rfl, by decide⟩
  · exact .inl ⟨'X', 16, _, rfl, by decide⟩
  · exact .inl ⟨'b', 2, _, rfl, by decide⟩
  · exact .inl ⟨'B', 2, _, rfl, by decide⟩
  · exact .inl ⟨'o', 8, _, rfl, by decide⟩
  · exact .inl ⟨'O', 8, _, rfl, by decide⟩
  · exact .inr rfl

theorem bounds_radixOf (text : List Char) :
    1 < (radixOf text).1 ∧ (radixOf text).1 ≤ 16 := by
  rcases radixOf_cases text with ⟨letter, radix, rest, rfl, hLetter⟩ | hRadix
  · rw [radixOf_marked hLetter]
    exact (bounds_of_mem_radixLetters hLetter).2
  · rw [hRadix]
    exact ⟨by omega, by omega⟩

/-- The letter of a mark is no decimal digit, so that a text with a mark is no integer without
one. -/
theorem not_signedDigits_ten {letter : Char} {radix : Nat}
    (hLetter : (letter, radix) ∈ radixLetters) {v : Int} {text : List Char} :
    ¬ SignedDigits 10 v ('0' :: letter :: text) := by
  intro h
  have hAll : ∀ mark ∈ radixLetters, isDigitOf 10 mark.1 = false := by decide
  cases h with
  | bare hDigits =>
    obtain ⟨-, hOwn⟩ := (exists_digits_iff (by decide) (by decide)).mp ⟨_, hDigits⟩
    cases (hAll _ hLetter).symm.trans (hOwn letter (by simp))

theorem written_iff_radixOf {v : Int} {text : List Char} :
    Written v text ↔ SignedDigits (radixOf text).1 v (radixOf text).2 := by
  constructor
  · intro h
    cases h with
    | marked hLetter hDigits => rwa [radixOf_marked hLetter]
    | decimal hDigits =>
      rcases radixOf_cases text with ⟨letter, radix, rest, rfl, hLetter⟩ | hRadix
      · exact absurd hDigits (not_signedDigits_ten hLetter)
      · rwa [hRadix]
  · intro h
    rcases radixOf_cases text with ⟨letter, radix, rest, rfl, hLetter⟩ | hRadix
    · rw [radixOf_marked hLetter] at h
      exact .marked hLetter h
    · rw [hRadix] at h
      exact .decimal h

theorem Written.ascii {v : Int} {text : List Char} (h : Written v text) :
    ∀ c ∈ text, c.toNat < 0x80 := by
  cases h with
  | marked hLetter hDigits =>
    obtain ⟨hAscii, hLeast, hMost⟩ := bounds_of_mem_radixLetters hLetter
    refine List.forall_mem_cons.mpr ⟨by decide, List.forall_mem_cons.mpr ⟨hAscii, ?_⟩⟩
    exact hDigits.ascii hLeast hMost
  | decimal hDigits => exact hDigits.ascii (by decide) (by decide)

/-! ## Words of 64 bits -/

theorem fits_iff {v : Int} : fits v = true ↔ -2 ^ 63 ≤ v ∧ v ≤ 2 ^ 63 - 1 := by
  have hLeast : Int64.minValue.toInt = -2 ^ 63 := by decide
  have hMost : Int64.maxValue.toInt = 2 ^ 63 - 1 := by decide
  rw [fits, Bool.and_eq_true, decide_eq_true_eq, decide_eq_true_eq, hLeast, hMost]

theorem integer?_eq_some_iff {text : String} {v : Int} :
    integer? text = some v ↔ Written v text.toList ∧ -2 ^ 63 ≤ v ∧ v ≤ 2 ^ 63 - 1 := by
  obtain ⟨hLeast, hMost⟩ := bounds_radixOf text.toList
  have hRead : integer? text =
      (signed? (radixOf text.toList).1 (radixOf text.toList).2).filter fits := rfl
  rw [hRead, Option.filter_eq_some_iff, signed?_eq_some_iff hLeast hMost, fits_iff,
    written_iff_radixOf]

/-- A text is read as the integer that it is, if this fits into a signed word of 64 bits. All other
texts are refused, among them those with a character of more than one byte. -/
theorem integer?_exact (text : String) :
    (∀ v, integer? text = some v ↔ Written v text.toList ∧ -2 ^ 63 ≤ v ∧ v ≤ 2 ^ 63 - 1) ∧
      (integer? text = none ↔
        ¬ ∃ v, Written v text.toList ∧ -2 ^ 63 ≤ v ∧ v ≤ 2 ^ 63 - 1) ∧
      ((∃ c ∈ text.toList, 1 < c.utf8Size) → integer? text = none) := by
  have hNone : integer? text = none ↔
      ¬ ∃ v, Written v text.toList ∧ -2 ^ 63 ≤ v ∧ v ≤ 2 ^ 63 - 1 := by
    simp only [Option.eq_none_iff_forall_ne_some, ne_eq, integer?_eq_some_iff, not_exists]
  refine ⟨fun v => integer?_eq_some_iff, hNone, ?_⟩
  rintro ⟨c, hMem, hBytes⟩
  refine hNone.mpr ?_
  rintro ⟨v, hWritten, -⟩
  have hOne := utf8Size_eq_one_iff.mpr (hWritten.ascii c hMem)
  omega

-- The sign stands behind the mark, and the least integer has no positive counterpart.
example : integer? "0b-101" = some (-5) := by decide
example : integer? "-0b101" = none := by decide
example : integer? "-9223372036854775808" = some (-9223372036854775808) := by decide
example : integer? "+9223372036854775808" = none := by decide

end Jingle.Number

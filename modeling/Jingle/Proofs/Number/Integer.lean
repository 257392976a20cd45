import Jingle.Number.Integer
import Jingle.Proofs.Token.Pattern
import Jingle.Proofs.Token.Shape
import Mathlib.Algebra.Group.Nat.Defs

/-!
# Integers in digits

A natural number is written in some radix with its digits, the letters among them in either case,
after any number of zeros and after the mark of the radix. It is read back if it is less than
`2 ^ 63`, and otherwise it is no integer.

* `Number.Digits` and `Number.Spelled` say how a number is written.
* `Number.natural?_eq_some_iff` says that reading digits is the inverse of `Number.Digits`.
* `Number.Spelled.integer?_eq` gives the integer of a number that is written, and
  `Number.integer?_eq_none_iff` says which texts that have the form of an integer are none.
-/

namespace Jingle.Text

/-- A decimal digit that is not one of `0` to `9`. -/
def ForeignDigit (c : Char) : Prop :=
  isDigit c = true ∧ 0x80 ≤ c.toNat

theorem toNat_toLower (c : Char) :
    c.toLower.toNat = if 0x41 ≤ c.toNat ∧ c.toNat ≤ 0x5a then c.toNat + 0x20 else c.toNat := by
  change Char.toNat (dite _ _ _) = _
  split
  · next hUpper =>
    have hRange : 0x41 ≤ c.toNat ∧ c.toNat ≤ 0x5a := hUpper
    have hLess : c.toNat + 0x20 < 2 ^ 32 := by omega
    have hSum : (c.val + 0x20).toNat = c.toNat + 0x20 :=
      (UInt32.toNat_add _ _).trans (Nat.mod_eq_of_lt hLess)
    rw [if_pos hRange]
    exact hSum
  · next hUpper => exact (if_neg hUpper).symm

theorem toNat_digitChar {d : Nat} (h : d < 16) :
    (Nat.digitChar d).toNat = if d < 10 then 0x30 + d else 0x57 + d := by
  revert h
  revert d
  decide

theorem toLower_digitChar {d : Nat} (h : d < 16) : (Nat.digitChar d).toLower = Nat.digitChar d := by
  revert h
  revert d
  decide

theorem digitValue?_eq (c : Char) :
    digitValue? c = if 0x30 ≤ c.toNat ∧ c.toNat ≤ 0x39 then some (c.toNat - 0x30)
      else if 0x61 ≤ c.toNat ∧ c.toNat ≤ 0x7a then some (c.toNat - 0x61 + 10)
      else if 0x41 ≤ c.toNat ∧ c.toNat ≤ 0x5a then some (c.toNat - 0x41 + 10) else none :=
  rfl

theorem digitOf?_eq_some_iff {radix : Nat} (hRadix : radix ≤ 16) {c : Char} {d : Nat} :
    digitOf? radix c = some d ↔ d < radix ∧ c.toLower = Nat.digitChar d := by
  rw [digitOf?, Option.filter_eq_some_iff, digitValue?_eq, decide_eq_true_eq, and_comm]
  apply and_congr_right
  intro hLess
  rw [← Char.toNat_inj, toNat_toLower, toNat_digitChar (by omega)]
  grind

theorem toNat_lt_of_isDigitOf {radix : Nat} {c : Char} (h : isDigitOf radix c = true) :
    c.toNat < 0x80 := by
  obtain ⟨d, hDigit⟩ := Option.isSome_iff_exists.mp h
  rw [digitOf?, Option.filter_eq_some_iff, digitValue?_eq] at hDigit
  grind

theorem isDigitOf_ten_iff {c : Char} :
    isDigitOf 10 c = true ↔ isDigit c = true ∧ c.toNat < 0x80 := by
  rw [isDigitOf, Option.isSome_iff_exists]
  simp only [digitOf?, Option.filter_eq_some_iff, digitValue?_eq, decide_eq_true_eq]
  constructor
  · rintro ⟨d, hValue, hLess⟩
    have hRange : 0x30 ≤ c.toNat ∧ c.toNat ≤ 0x39 := by grind
    rw [isDigit_eq (by omega), decide_eq_true_eq]
    omega
  · rintro ⟨hDigit, hAscii⟩
    rw [isDigit_eq (by omega), decide_eq_true_eq] at hDigit
    exact ⟨c.toNat - 0x30, if_pos hDigit, by omega⟩

theorem isDigitOf_ten_of_not_foreign {digits : List Char} (hDigits : ∀ c ∈ digits, isDigit c = true)
    (hOwn : ∀ c ∈ digits, ¬ ForeignDigit c) : ∀ c ∈ digits, isDigitOf 10 c = true := by
  intro c hc
  refine isDigitOf_ten_iff.mpr ⟨hDigits c hc, Nat.lt_of_not_le fun hHigh => ?_⟩
  exact hOwn c hc ⟨hDigits c hc, hHigh⟩

end Jingle.Text

namespace Jingle.Number

open Text
open Token (radixLetters IntegerForm)

/-! ## Digits -/

/-- The text is the digits of the number in the radix, in either case of each letter, after any
number of zeros. -/
def Digits (radix n : Nat) (text : List Char) : Prop :=
  ∃ zeros, text.map Char.toLower = List.replicate zeros '0' ++ Nat.toDigits radix n

/-- The value of digits that follow the digits of a number. -/
def positional (radix n : Nat) (digits : List Nat) : Nat :=
  digits.foldl (fun value digit => value * radix + digit) n

theorem positional_zero_cons (radix d : Nat) (digits : List Nat) :
    positional radix 0 (d :: digits) = positional radix d digits := by
  simp only [positional, List.foldl_cons, Nat.zero_mul, Nat.zero_add]

theorem positional_zeros (radix zeros : Nat) (digits : List Nat) :
    positional radix 0 (List.replicate zeros 0 ++ digits) = positional radix 0 digits := by
  induction zeros with
  | zero => rfl
  | succ zeros ih =>
    rw [List.replicate_succ, List.cons_append, positional_zero_cons, ih]

section Radix

variable {radix : Nat}

theorem mapM_digitOf?_cons {c : Char} {text : List Char} {digits : List Nat} :
    (c :: text).mapM (digitOf? radix) = some digits ↔
      ∃ d others, digitOf? radix c = some d ∧ text.mapM (digitOf? radix) = some others ∧
        digits = d :: others := by
  simp only [List.mapM_cons, Option.bind_eq_bind, Option.bind_eq_some_iff, Option.pure_def,
    Option.some_inj]
  grind

theorem exists_mapM_digitOf?_iff {text : List Char} :
    (∃ digits, text.mapM (digitOf? radix) = some digits) ↔
      ∀ c ∈ text, isDigitOf radix c = true := by
  induction text with
  | nil => simp
  | cons c text ih =>
    rw [List.forall_mem_cons, ← ih, isDigitOf, Option.isSome_iff_exists]
    simp only [mapM_digitOf?_cons]
    constructor
    · rintro ⟨_, d, others, hFirst, hOthers, rfl⟩
      exact ⟨⟨d, hFirst⟩, others, hOthers⟩
    · rintro ⟨⟨d, hFirst⟩, others, hOthers⟩
      exact ⟨_, d, others, hFirst, hOthers, rfl⟩

theorem mapM_digitOf?_eq_some_iff (hMost : radix ≤ 16) {text : List Char} {digits : List Nat} :
    text.mapM (digitOf? radix) = some digits ↔
      (∀ d ∈ digits, d < radix) ∧ text.map Char.toLower = digits.map Nat.digitChar := by
  induction text generalizing digits with
  | nil => cases digits <;> simp
  | cons c text ih =>
    simp only [mapM_digitOf?_cons, digitOf?_eq_some_iff hMost, ih]
    constructor
    · rintro ⟨d, others, ⟨hLess, hChar⟩, ⟨hOthers, hChars⟩, rfl⟩
      exact ⟨List.forall_mem_cons.mpr ⟨hLess, hOthers⟩, congrArg₂ List.cons hChar hChars⟩
    · rintro ⟨hLess, hChars⟩
      cases digits with
      | nil => cases hChars
      | cons d others =>
        obtain ⟨hFirst, hOthers⟩ := List.forall_mem_cons.mp hLess
        obtain ⟨hChar, hChars⟩ := List.cons.inj hChars
        exact ⟨d, others, ⟨hFirst, hChar⟩, ⟨hOthers, hChars⟩, rfl⟩

section Positions

variable (hLeast : 1 < radix)

include hLeast

/-- The digits after those of a positive number are the last ones of their value. -/
theorem toDigits_append_of_pos {n : Nat} (hPos : 0 < n) {digits : List Nat}
    (hDigits : ∀ d ∈ digits, d < radix) :
    Nat.toDigits radix n ++ digits.map Nat.digitChar =
      Nat.toDigits radix (positional radix n digits) := by
  induction digits generalizing n with
  | nil => exact List.append_nil _
  | cons d digits ih =>
    obtain ⟨hFirst, hOthers⟩ := List.forall_mem_cons.mp hDigits
    have hNext : 0 < n * radix + d := by
      have := Nat.mul_pos hPos (Nat.zero_lt_of_lt hLeast)
      omega
    have hJoin := Nat.toDigits_append_toDigits hLeast hPos hFirst
    rw [Nat.toDigits_of_lt_base hFirst, Nat.mul_comm] at hJoin
    calc Nat.toDigits radix n ++ (d :: digits).map Nat.digitChar
      _ = (Nat.toDigits radix n ++ [d.digitChar]) ++ digits.map Nat.digitChar := by simp
      _ = Nat.toDigits radix (n * radix + d) ++ digits.map Nat.digitChar := by rw [hJoin]
      _ = Nat.toDigits radix (positional radix n (d :: digits)) := ih hNext hOthers

/-- Digits are those of their value after zeros. -/
theorem exists_zeros_append_toDigits {digits : List Nat} (hNe : digits ≠ [])
    (hDigits : ∀ d ∈ digits, d < radix) :
    ∃ zeros, digits.map Nat.digitChar =
      List.replicate zeros '0' ++ Nat.toDigits radix (positional radix 0 digits) := by
  induction digits with
  | nil => exact absurd rfl hNe
  | cons d digits ih =>
    obtain ⟨hFirst, hOthers⟩ := List.forall_mem_cons.mp hDigits
    rw [positional_zero_cons, List.map_cons]
    -- Up to the first digit that is not zero the digits are zeros before the number.
    rcases Nat.eq_zero_or_pos d with rfl | hPos
    · cases digits with
      | nil => exact ⟨0, (Nat.toDigits_of_lt_base hFirst).symm⟩
      | cons d digits =>
        obtain ⟨zeros, hZeros⟩ := ih (List.cons_ne_nil _ _) hOthers
        exact ⟨zeros + 1, congrArg _ hZeros⟩
    · refine ⟨0, ?_⟩
      rw [← toDigits_append_of_pos hLeast hPos hOthers, Nat.toDigits_of_lt_base hFirst]
      rfl

/-- The digits of a number have it as their value. -/
theorem exists_digits_of_toDigits (n : Nat) :
    ∃ digits : List Nat, (∀ d ∈ digits, d < radix) ∧
      digits.map Nat.digitChar = Nat.toDigits radix n ∧ positional radix 0 digits = n := by
  induction n using Nat.strongRecOn with
  | ind n ih =>
    rcases Nat.lt_or_ge n radix with hLess | hGe
    · refine ⟨[n], by simpa using hLess, (Nat.toDigits_of_lt_base hLess).symm, ?_⟩
      exact positional_zero_cons radix n []
    · have hDiv : n / radix < n := Nat.div_lt_self (by omega) hLeast
      obtain ⟨digits, hDigits, hChars, hValue⟩ := ih (n / radix) hDiv
      refine ⟨digits ++ [n % radix], ?_, ?_, ?_⟩
      · have hLast : n % radix < radix := Nat.mod_lt n (Nat.zero_lt_of_lt hLeast)
        exact List.forall_mem_append.mpr ⟨hDigits, List.forall_mem_singleton.mpr hLast⟩
      · rw [Nat.toDigits_of_base_le hLeast hGe, List.map_append, hChars]
        rfl
      · rw [positional, List.foldl_append]
        change positional radix 0 digits * radix + n % radix = n
        rw [hValue]
        exact Nat.div_add_mod' n radix

end Positions

theorem natural?_eq_some_iff_positional {text : List Char} {n : Nat} :
    natural? radix text = some n ↔
      text ≠ [] ∧ ∃ digits, text.mapM (digitOf? radix) = some digits ∧
        positional radix 0 digits = n := by
  rw [natural?]
  cases text with
  | nil => simp
  | cons c text =>
    rw [if_neg (by simp), Option.map_eq_some_iff]
    simp [positional]

theorem ascii_of_natural? {text : List Char} {n : Nat} (h : natural? radix text = some n) :
    ∀ c ∈ text, c.toNat < 0x80 := by
  obtain ⟨-, digits, hDigits, -⟩ := natural?_eq_some_iff_positional.mp h
  have hAll := exists_mapM_digitOf?_iff.mp ⟨digits, hDigits⟩
  exact fun c hc => toNat_lt_of_isDigitOf (hAll c hc)

variable (hLeast : 1 < radix) (hMost : radix ≤ 16)

include hLeast hMost

/-- Reading digits gives a number exactly if they are digits of it. -/
theorem natural?_eq_some_iff {text : List Char} {n : Nat} :
    natural? radix text = some n ↔ Digits radix n text := by
  rw [natural?_eq_some_iff_positional]
  simp only [mapM_digitOf?_eq_some_iff hMost]
  constructor
  · rintro ⟨hNe, digits, ⟨hDigits, hChars⟩, rfl⟩
    have hNe' : digits ≠ [] := by
      rintro rfl
      exact hNe (List.map_eq_nil_iff.mp hChars)
    rw [Digits, hChars]
    exact exists_zeros_append_toDigits hLeast hNe' hDigits
  · rintro ⟨zeros, hText⟩
    obtain ⟨digits, hDigits, hChars, hValue⟩ := exists_digits_of_toDigits hLeast n
    refine ⟨?_, List.replicate zeros 0 ++ digits, ⟨?_, ?_⟩, ?_⟩
    · rintro rfl
      exact Nat.toDigits_ne_nil (List.append_eq_nil_iff.mp hText.symm).2
    · refine List.forall_mem_append.mpr ⟨?_, hDigits⟩
      intro d hd
      rw [List.eq_of_mem_replicate hd]
      exact Nat.zero_lt_of_lt hLeast
    · rw [hText, List.map_append, hChars, List.map_replicate]
      rfl
    · rw [positional_zeros, hValue]

theorem digits_toDigits (n : Nat) : Digits radix n (Nat.toDigits radix n) := by
  obtain ⟨digits, hDigits, hChars, -⟩ := exists_digits_of_toDigits hLeast n
  refine ⟨0, ?_⟩
  rw [← hChars, List.map_map]
  refine List.map_congr_left fun d hd => toLower_digitChar ?_
  exact Nat.lt_of_lt_of_le (hDigits d hd) hMost

/-- A text is digits of some number if all its characters are digits. -/
theorem exists_digits_iff {text : List Char} :
    (∃ n, Digits radix n text) ↔ text ≠ [] ∧ ∀ c ∈ text, isDigitOf radix c = true := by
  simp only [← natural?_eq_some_iff hLeast hMost, natural?_eq_some_iff_positional]
  rw [← exists_mapM_digitOf?_iff]
  constructor
  · rintro ⟨n, hNe, digits, hDigits, -⟩
    exact ⟨hNe, digits, hDigits⟩
  · rintro ⟨hNe, digits, hDigits⟩
    exact ⟨_, hNe, digits, hDigits, rfl⟩

end Radix

/-! ## Marks and signs -/

/-- The text is the mark of the radix, which is none for decimal digits, and digits of the
number. -/
inductive Spelled : Nat → Nat → List Char → Prop where
  | marked {letter : Char} {radix n : Nat} {digits : List Char} : (letter, radix) ∈ radixLetters →
      Digits radix n digits → Spelled radix n ('0' :: letter :: digits)
  | decimal {n : Nat} {digits : List Char} : Digits 10 n digits → Spelled 10 n digits

theorem bounds_of_mem_radixLetters {letter : Char} {radix : Nat}
    (h : (letter, radix) ∈ radixLetters) : letter.toNat < 0x80 ∧ 1 < radix ∧ radix ≤ 16 := by
  have hAll : ∀ mark ∈ radixLetters, mark.1.toNat < 0x80 ∧ 1 < mark.2 ∧ mark.2 ≤ 16 := by decide
  exact hAll _ h

theorem radixOf_marked {letter : Char} {radix : Nat} (h : (letter, radix) ∈ radixLetters)
    (digits : List Char) : radixOf ('0' :: letter :: digits) = (radix, digits) := by
  simp only [radixLetters, List.mem_cons, List.not_mem_nil, or_false, Prod.mk.injEq] at h
  rcases h with ⟨rfl, rfl⟩ | ⟨rfl, rfl⟩ | ⟨rfl, rfl⟩ | ⟨rfl, rfl⟩ | ⟨rfl, rfl⟩ | ⟨rfl, rfl⟩ <;> rfl

theorem radixOf_digits {digits : List Char} (hDigits : ∀ c ∈ digits, isDigit c = true) :
    radixOf digits = (10, digits) := by
  unfold radixOf
  split
  · exact absurd (hDigits 'x' (by simp)) (by decide)
  · exact absurd (hDigits 'X' (by simp)) (by decide)
  · exact absurd (hDigits 'b' (by simp)) (by decide)
  · exact absurd (hDigits 'B' (by simp)) (by decide)
  · exact absurd (hDigits 'o' (by simp)) (by decide)
  · exact absurd (hDigits 'O' (by simp)) (by decide)
  · rfl

/-- The text does not begin with a sign. -/
def NoSign (text : List Char) : Prop :=
  ∀ c ∈ text.head?, c ≠ '-' ∧ c ≠ '+'

theorem noSign_of_forall {p : Char → Bool} (hMinus : p '-' = false) (hPlus : p '+' = false)
    {text : List Char} (h : ∀ c ∈ text.head?, p c = true) : NoSign text := by
  intro c hc
  constructor
  · rintro rfl
    exact Bool.false_ne_true (hMinus.symm.trans (h _ hc))
  · rintro rfl
    exact Bool.false_ne_true (hPlus.symm.trans (h _ hc))

theorem noSign_of_isDigit {digits : List Char} (h : ∀ c ∈ digits, isDigit c = true) :
    NoSign digits :=
  noSign_of_forall (by decide) (by decide) fun c hc => h c (List.mem_of_mem_head? hc)

theorem noSign_of_isDigitOf {radix : Nat} {digits : List Char}
    (h : ∀ c ∈ digits, isDigitOf radix c = true) : NoSign digits :=
  noSign_of_forall rfl rfl fun c hc => h c (List.mem_of_mem_head? hc)

theorem signed?_minus (radix : Nat) (text : List Char) :
    signed? radix ('-' :: text) = (natural? radix text).map fun n => -Int.ofNat n := by
  rw [signed?]
  cases natural? radix text <;> rfl

theorem signed?_plus (radix : Nat) (text : List Char) :
    signed? radix ('+' :: text) = (natural? radix text).map Int.ofNat := by
  rw [signed?]
  cases natural? radix text <;> rfl

theorem signed?_of_noSign {text : List Char} (h : NoSign text) (radix : Nat) :
    signed? radix text = (natural? radix text).map Int.ofNat := by
  unfold signed?
  split
  · exact absurd rfl (h '-' rfl).1
  · exact absurd rfl (h '+' rfl).2
  · cases natural? radix text <;> rfl

theorem fits_natCast (n : Nat) : fits (n : Int) = decide (n < 2 ^ 63) := by
  have hLeast : Int64.minValue.toInt ≤ 0 := by decide
  have hMost : Int64.maxValue.toInt = 2 ^ 63 - 1 := by decide
  simp only [fits, hMost]
  grind

theorem integer?_of_radixOf {radix : Nat} {text digits : List Char}
    (hRadix : radixOf text = (radix, digits)) (hSign : NoSign digits) :
    integer? (String.ofList text) =
      ((natural? radix digits).filter fun n => n < 2 ^ 63).map Int.ofNat := by
  simp only [integer?, String.toList_ofList, hRadix, signed?_of_noSign hSign]
  cases natural? radix digits with
  | none => rfl
  | some n =>
    rw [Option.map_some, Option.filter_some, Option.filter_some, Int.ofNat_eq_natCast, fits_natCast]
    split <;> rfl

/-! ## Integers -/

theorem integer?_of_digits {radix n : Nat} {text digits : List Char}
    (hLeast : 1 < radix) (hMost : radix ≤ 16) (hRadix : radixOf text = (radix, digits))
    (hDigits : Digits radix n digits) :
    integer? (String.ofList text) = if n < 2 ^ 63 then some (n : Int) else none := by
  obtain ⟨-, hAll⟩ := (exists_digits_iff hLeast hMost).mp ⟨n, hDigits⟩
  rw [integer?_of_radixOf hRadix (noSign_of_isDigitOf hAll),
    (natural?_eq_some_iff hLeast hMost).mpr hDigits, Option.filter_some]
  simp only [decide_eq_true_eq]
  split <;> rfl

theorem Spelled.integer?_eq {radix n : Nat} {text : List Char} (h : Spelled radix n text) :
    integer? (String.ofList text) = if n < 2 ^ 63 then some (n : Int) else none := by
  cases h with
  | marked hLetter hDigits =>
    obtain ⟨-, hLeast, hMost⟩ := bounds_of_mem_radixLetters hLetter
    exact integer?_of_digits hLeast hMost (radixOf_marked hLetter _) hDigits
  | decimal hDigits =>
    obtain ⟨-, hAll⟩ := (exists_digits_iff (by decide) (by decide)).mp ⟨n, hDigits⟩
    have hRadix := radixOf_digits fun c hc => (isDigitOf_ten_iff.mp (hAll c hc)).1
    exact integer?_of_digits (by decide) (by decide) hRadix hDigits

/-- A text that has the form of an integer and no foreign digit is some number as it is written. -/
theorem exists_spelled {text : List Char} (h : IntegerForm text)
    (hOwn : ∀ c ∈ text, ¬ ForeignDigit c) : ∃ radix n, Spelled radix n text := by
  cases h with
  | marked hLetter hNe hDigits =>
    obtain ⟨-, hLeast, hMost⟩ := bounds_of_mem_radixLetters hLetter
    obtain ⟨n, hValue⟩ := (exists_digits_iff hLeast hMost).mpr ⟨hNe, hDigits⟩
    exact ⟨_, n, .marked hLetter hValue⟩
  | decimal hNe hDigits =>
    have hDigits' := isDigitOf_ten_of_not_foreign hDigits hOwn
    obtain ⟨n, hValue⟩ := (exists_digits_iff (by decide) (by decide)).mpr ⟨hNe, hDigits'⟩
    exact ⟨10, n, .decimal hValue⟩

theorem integer?_of_foreign {text : List Char} (h : IntegerForm text)
    (hForeign : ∃ c ∈ text, ForeignDigit c) : integer? (String.ofList text) = none := by
  obtain ⟨c, hMem, hDigit, hHigh⟩ := hForeign
  cases h with
  | @marked letter radix digits hLetter hNe hDigits =>
    have hAscii : ∀ d ∈ '0' :: letter :: digits, d.toNat < 0x80 := by
      refine List.forall_mem_cons.mpr ⟨by decide, List.forall_mem_cons.mpr ⟨?_, ?_⟩⟩
      · exact (bounds_of_mem_radixLetters hLetter).1
      · exact fun d hd => toNat_lt_of_isDigitOf (hDigits d hd)
    exact absurd (hAscii c hMem) (Nat.not_lt.mpr hHigh)
  | decimal hNe hDigits =>
    have hNone : natural? 10 text = none := by
      rw [Option.eq_none_iff_forall_ne_some]
      intro n hValue
      exact Nat.not_lt.mpr hHigh (ascii_of_natural? hValue c hMem)
    rw [integer?_of_radixOf (radixOf_digits hDigits) (noSign_of_isDigit hDigits), hNone]
    rfl

/-- A text that has the form of an integer is none exactly if it has a foreign digit or is a number
that is too large. -/
theorem integer?_eq_none_iff {text : List Char} (h : IntegerForm text) :
    integer? (String.ofList text) = none ↔
      (∃ c ∈ text, ForeignDigit c) ∨ ∃ radix n, Spelled radix n text ∧ 2 ^ 63 ≤ n := by
  constructor
  · intro hNone
    by_cases hForeign : ∃ c ∈ text, ForeignDigit c
    · exact .inl hForeign
    · obtain ⟨radix, n, hSpelled⟩ := exists_spelled h (by simpa using hForeign)
      refine .inr ⟨radix, n, hSpelled, Nat.le_of_not_lt fun hLess => ?_⟩
      rw [hSpelled.integer?_eq, if_pos hLess] at hNone
      cases hNone
  · rintro (hForeign | ⟨radix, n, hSpelled, hLarge⟩)
    · exact integer?_of_foreign h hForeign
    · rw [hSpelled.integer?_eq, if_neg (Nat.not_lt.mpr hLarge)]

/-- A number in decimal digits is read back if it fits. -/
theorem integer?_toString {n : Nat} (h : (n : Int) ≤ Int64.maxValue.toInt) :
    integer? (toString n) = some (n : Int) := by
  have hSpelled : Spelled 10 n (Nat.toDigits 10 n) :=
    .decimal (digits_toDigits (by decide) (by decide) n)
  have hMost : Int64.maxValue.toInt = 2 ^ 63 - 1 := by decide
  rw [Nat.toString_eq_ofList_toDigits, hSpelled.integer?_eq, if_pos (by omega)]

end Jingle.Number

import Jingle.Number.Decimal
import Jingle.Proofs.Number.Integer

/-!
# Floats in digits

The form of a float admits the decimal digits of every script, but only the digits `0` to `9` are
read. So a text that has the form of a float is no number exactly if it has a foreign digit.

* `Number.ascii_of_unsignedDecimal?` says that nothing else than ASCII is read.
* `Number.exists_unsignedDecimal?` says that a form without foreign digits is read.
* `Number.double?_eq_none_iff` puts them together.
-/

namespace Jingle.Text

theorem toLower_of_isDigit {c : Char} (h : isDigit c = true) : c.toLower = c := by
  rw [← Char.toNat_inj, toNat_toLower, if_neg]
  intro hRange
  rw [isDigit_eq (by omega), decide_eq_true_eq] at h
  omega

end Jingle.Text

namespace Jingle.Number

open Text
open Token (ExponentForm FloatForm takeWhile_append_of_head? dropWhile_append_of_head?)

/-! ## Numbers are ASCII -/

theorem ascii_of_signed? {radix : Nat} {text : List Char} {value : Int}
    (h : signed? radix text = some value) : ∀ c ∈ text, c.toNat < 0x80 := by
  unfold signed? at h
  split at h
  all_goals
    obtain ⟨_, hBind, -⟩ := Option.map_eq_some_iff.mp h
    obtain ⟨n, hValue, -⟩ := Option.bind_eq_some_iff.mp hBind
  · exact List.forall_mem_cons.mpr ⟨by decide, ascii_of_natural? hValue⟩
  · exact List.forall_mem_cons.mpr ⟨by decide, ascii_of_natural? hValue⟩
  · exact ascii_of_natural? hValue

theorem ascii_of_exponent? {tail : List Char} {value : Int} (h : exponent? tail = some value) :
    ∀ c ∈ tail, c.toNat < 0x80 := by
  cases tail with
  | nil => exact List.forall_mem_nil _
  | cons letter text =>
    rw [exponent?] at h
    split at h
    · next hLetter =>
      refine List.forall_mem_cons.mpr ⟨?_, ascii_of_signed? h⟩
      rcases hLetter with rfl | rfl <;> decide
    · cases h

theorem ascii_of_digits_append {text : List Char}
    (h : ∀ c ∈ text.dropWhile (isDigitOf 10), c.toNat < 0x80) : ∀ c ∈ text, c.toNat < 0x80 := by
  rw [← List.takeWhile_append_dropWhile (p := isDigitOf 10) (l := text)]
  refine List.forall_mem_append.mpr ⟨fun c hc => ?_, h⟩
  exact toNat_lt_of_isDigitOf (List.all_eq_true.mp List.all_takeWhile c hc)

theorem ascii_of_unsignedDecimal? {negative : Bool} {text : List Char} {value : Double}
    (h : unsignedDecimal? negative text = some value) : ∀ c ∈ text, c.toNat < 0x80 := by
  apply ascii_of_digits_append
  unfold unsignedDecimal? at h
  dsimp only at h
  split at h
  · next _ rest hRest =>
    split at h
    · cases h
    · obtain ⟨exponent, hExponent, -⟩ := Option.map_eq_some_iff.mp h
      rw [hRest]
      refine List.forall_mem_cons.mpr ⟨by decide, ?_⟩
      exact ascii_of_digits_append (ascii_of_exponent? hExponent)
  · split at h
    · cases h
    · obtain ⟨exponent, hExponent, -⟩ := Option.map_eq_some_iff.mp h
      exact ascii_of_exponent? hExponent

/-! ## Forms are numbers -/

theorem exists_natural? {digits : List Char} (hNe : digits ≠ [])
    (hDigits : ∀ c ∈ digits, isDigit c = true) (hOwn : ∀ c ∈ digits, ¬ ForeignDigit c) :
    ∃ n, natural? 10 digits = some n := by
  have hDigits' := isDigitOf_ten_of_not_foreign hDigits hOwn
  obtain ⟨n, hValue⟩ := (exists_digits_iff (by decide) (by decide)).mpr ⟨hNe, hDigits'⟩
  exact ⟨n, (natural?_eq_some_iff (by decide) (by decide)).mpr hValue⟩

theorem exists_exponent? {tail : List Char} (h : tail = [] ∨ ExponentForm tail)
    (hOwn : ∀ c ∈ tail, ¬ ForeignDigit c) : ∃ value, exponent? tail = some value := by
  rcases h with rfl | ⟨hLetter, hSign, hNe, hDigits⟩
  · exact ⟨0, rfl⟩
  · next letter sign digits =>
    obtain ⟨-, hOwn⟩ := List.forall_mem_cons.mp hOwn
    obtain ⟨n, hValue⟩ := exists_natural? hNe hDigits (List.forall_mem_append.mp hOwn).2
    rw [exponent?, if_pos hLetter]
    rcases hSign with rfl | rfl | rfl
    · refine ⟨Int.ofNat n, ?_⟩
      rw [List.nil_append, signed?_of_noSign (noSign_of_isDigit hDigits), hValue]
      rfl
    · refine ⟨Int.ofNat n, ?_⟩
      rw [List.singleton_append, signed?_plus, hValue]
      rfl
    · refine ⟨-Int.ofNat n, ?_⟩
      rw [List.singleton_append, signed?_minus, hValue]
      rfl

theorem exponent_head {tail : List Char} (h : tail = [] ∨ ExponentForm tail) :
    ∀ c ∈ tail.head?, isDigitOf 10 c = false ∧ c ≠ '.' := by
  rcases h with rfl | ⟨rfl | rfl, -⟩
  · rintro c ⟨⟩
  · rintro c ⟨⟩
    decide
  · rintro c ⟨⟩
    decide

section Parts

variable {negative : Bool} {whole places tail : List Char} {exponent : Int}
  (hWhole : ∀ c ∈ whole, isDigitOf 10 c = true) (hExponent : exponent? tail = some exponent)

include hWhole hExponent

theorem unsignedDecimal?_pointed (hPlaces : ∀ c ∈ places, isDigitOf 10 c = true)
    (hTail : ∀ c ∈ tail.head?, isDigitOf 10 c = false) (hNe : whole ++ places ≠ []) :
    unsignedDecimal? negative (whole ++ '.' :: (places ++ tail)) =
      some (.ofDecimal negative (digitsValue (whole ++ places)) (exponent - places.length)) := by
  have hPoint : ∀ c ∈ ('.' :: (places ++ tail)).head?, isDigitOf 10 c = false := by
    rintro c ⟨⟩
    rfl
  rw [unsignedDecimal?, takeWhile_append_of_head? hWhole hPoint,
    dropWhile_append_of_head? hWhole hPoint]
  simp only [takeWhile_append_of_head? hPlaces hTail, dropWhile_append_of_head? hPlaces hTail]
  rw [if_neg (by simpa using hNe), hExponent, Option.map_some]

theorem unsignedDecimal?_whole (hTail : ∀ c ∈ tail.head?, isDigitOf 10 c = false ∧ c ≠ '.')
    (hNe : whole ≠ []) :
    unsignedDecimal? negative (whole ++ tail) =
      some (.ofDecimal negative (digitsValue whole) exponent) := by
  have hStop : ∀ c ∈ tail.head?, isDigitOf 10 c = false := fun c hc => (hTail c hc).1
  rw [unsignedDecimal?, takeWhile_append_of_head? hWhole hStop,
    dropWhile_append_of_head? hWhole hStop]
  dsimp only
  split
  · exact absurd rfl (hTail '.' rfl).2
  · rw [if_neg (by simpa using hNe), hExponent, Option.map_some, List.append_nil,
      List.length_nil]
    exact congrArg _ (congrArg _ (Int.sub_zero exponent))

end Parts

/-- A text that has the form of a float and no foreign digit is a number. -/
theorem exists_unsignedDecimal? (negative : Bool) {text : List Char} (h : FloatForm text)
    (hOwn : ∀ c ∈ text, ¬ ForeignDigit c) :
    ∃ value, unsignedDecimal? negative text = some value := by
  cases h with
  | pointed hPoint hTail =>
    obtain ⟨hOwn, hOwnTail⟩ := List.forall_mem_append.mp hOwn
    obtain ⟨exponent, hExponent⟩ := exists_exponent? hTail hOwnTail
    cases hPoint with
    | point hWhole hPlaces hNe =>
      obtain ⟨hOwnWhole, hOwnPlaces⟩ := List.forall_mem_append.mp hOwn
      have hWhole' := isDigitOf_ten_of_not_foreign hWhole hOwnWhole
      have hPlaces' := isDigitOf_ten_of_not_foreign hPlaces (List.forall_mem_cons.mp hOwnPlaces).2
      have hStop := fun c hc => (exponent_head hTail c hc).1
      rw [List.append_assoc, List.cons_append]
      exact ⟨_, unsignedDecimal?_pointed hWhole' hExponent hPlaces' hStop hNe⟩
  | whole hNe hDigits hTail =>
    obtain ⟨hOwn, hOwnTail⟩ := List.forall_mem_append.mp hOwn
    obtain ⟨exponent, hExponent⟩ := exists_exponent? (.inr hTail) hOwnTail
    have hDigits' := isDigitOf_ten_of_not_foreign hDigits hOwn
    exact ⟨_, unsignedDecimal?_whole hDigits' hExponent (exponent_head (.inr hTail)) hNe⟩

/-! ## Floats -/

theorem floatForm_head {text : List Char} (h : FloatForm text) :
    ∀ c ∈ text.head?, (isDigit c || c = '.') = true := by
  have hHead {digits rest : List Char} (hNe : digits ≠ [])
      (hDigits : ∀ c ∈ digits, isDigit c = true) :
      ∀ c ∈ (digits ++ rest).head?, (isDigit c || c = '.') = true := by
    cases digits with
    | nil => exact absurd rfl hNe
    | cons d digits =>
      rintro c ⟨⟩
      rw [hDigits d List.mem_cons_self]
      rfl
  cases h with
  | pointed hPoint _ =>
    cases hPoint with
    | @point whole places hWhole _ _ =>
      rw [List.append_assoc]
      cases whole with
      | nil =>
        rintro c ⟨⟩
        rfl
      | cons d whole => exact hHead (List.cons_ne_nil _ _) hWhole
  | whole hNe hDigits _ => exact hHead hNe hDigits

theorem double?_of_noSign {text : List Char} (h : NoSign text) :
    double? (String.ofList text) = unsigned? false text := by
  rw [double?, String.toList_ofList]
  split
  · exact absurd rfl (h '-' rfl).1
  · exact absurd rfl (h '+' rfl).2
  · rfl

/-- A text that has the form of a float is not one of the words that are numbers. -/
theorem unsigned?_of_floatForm (negative : Bool) {text : List Char} (h : FloatForm text) :
    unsigned? negative text = unsignedDecimal? negative text := by
  obtain ⟨c, rest, rfl⟩ := List.exists_cons_of_ne_nil h.ne_nil
  have hFirst : (isDigit c || c = '.') = true := floatForm_head h c rfl
  have hLower : c.toLower = c := by
    rcases (Bool.or_eq_true _ _).mp hFirst with hDigit | hPoint
    · exact toLower_of_isDigit hDigit
    · rw [of_decide_eq_true hPoint]
      rfl
  have hNe {word : String} {letter : Char} {others : List Char}
      (hWord : word.toList = letter :: others)
      (hLetter : (isDigit letter || letter = '.') = false) :
      String.ofList ((c :: rest).map Char.toLower) ≠ word := by
    rintro rfl
    rw [String.toList_ofList, List.map_cons, hLower] at hWord
    obtain ⟨rfl, -⟩ := List.cons.inj hWord
    exact Bool.false_ne_true (hLetter.symm.trans hFirst)
  have hInfinite := not_or.mpr
    ⟨hNe (rfl : "inf".toList = _) (by decide), hNe (rfl : "infinity".toList = _) (by decide)⟩
  rw [unsigned?, if_neg hInfinite, if_neg (hNe rfl (by decide))]

/-- A text that has the form of a float is no number exactly if it has a foreign digit. -/
theorem double?_eq_none_iff {text : List Char} (h : FloatForm text) :
    double? (String.ofList text) = none ↔ ∃ c ∈ text, ForeignDigit c := by
  have hSign : NoSign text := noSign_of_forall (by decide) (by decide) (floatForm_head h)
  rw [double?_of_noSign hSign, unsigned?_of_floatForm false h]
  constructor
  · intro hNone
    by_cases hForeign : ∃ c ∈ text, ForeignDigit c
    · exact hForeign
    · obtain ⟨value, hValue⟩ := exists_unsignedDecimal? false h (by simpa using hForeign)
      cases hNone.symm.trans hValue
  · rintro ⟨c, hMem, -, hHigh⟩
    rw [Option.eq_none_iff_forall_ne_some]
    intro value hValue
    exact Nat.not_lt.mpr hHigh (ascii_of_unsignedDecimal? hValue c hMem)

end Jingle.Number

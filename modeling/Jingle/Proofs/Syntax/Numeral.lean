import Jingle.Proofs.Number.Decimal
import Jingle.Proofs.Syntax.Literal
import Jingle.Proofs.Token.Munch

/-!
# Numbers in sources

A number that is written in some radix is one token, which means the number if it is less than
`2 ^ 63` and is refused otherwise. The other way round, an integer or a float that is cut from a
source is refused only for a digit of another script or, if it is an integer, for its size.

* `taken_spelled` says that a number as it is written is a piece of its own.
* `Literal.refused_integer_iff` and `Literal.refused_float_iff` lead from tokens to numbers.
* `Literal.number_means_itself` says it of sources.
-/

namespace Jingle

open Text Number

namespace Token

/-! ## Numbers as pieces -/

theorem first?_marked {letter : Char} {radix : Nat} (hLetter : (letter, radix) ∈ radixLetters)
    {digits : List Char} (hNe : digits ≠ []) (hDigits : ∀ c ∈ digits, isDigitOf radix c = true) :
    Pattern.first? Pattern.table ('0' :: letter :: digits) =
      some (2 + digits.length, .plain .integer) := by
  have hRun : Shape.run (isDigitOf radix) (digits ++ []) = some digits.length :=
    Shape.run_append hDigits hNe (by simp)
  rw [List.append_nil] at hRun
  have hAll : ∀ mark ∈ radixLetters,
      isDigit mark.1 = false ∧ mark.1 ≠ '.' ∧ ¬ (mark.1 = 'e' ∨ mark.1 = 'E') := by decide
  have hFloat : float (['0'] ++ letter :: digits) = none := by
    refine float_digits (List.forall_mem_singleton.mpr rfl) (List.cons_ne_nil _ _) ?_
    rintro c ⟨⟩
    exact hAll _ hLetter
  exact Pattern.first?_integer rfl hFloat (integer_marked hLetter hRun)

theorem taken_spelled {radix n : Nat} {text : List Char} (h : Spelled radix n text) :
    Taken .integer (String.ofList text) text [] := by
  refine ⟨.plain .integer, ?_, fun mark => rfl⟩
  cases h with
  | marked hLetter hDigits =>
    obtain ⟨-, hLeast, hMost⟩ := bounds_of_mem_radixLetters hLetter
    obtain ⟨hNe, hAll⟩ := (exists_digits_iff hLeast hMost).mp ⟨n, hDigits⟩
    rw [List.append_nil, first?_marked hLetter hNe hAll, Nat.add_comm]
    rfl
  | decimal hDigits =>
    obtain ⟨hNe, hAll⟩ := (exists_digits_iff (by decide) (by decide)).mp ⟨n, hDigits⟩
    refine Pattern.first?_digits (fun c hc => ?_) hNe apart_nil
    obtain ⟨hDigit, hAscii⟩ := isDigitOf_ten_iff.mp (hAll c hc)
    rw [isDigit_eq (by omega), decide_eq_true_eq] at hDigit
    exact isDigit_iff_toNat.mpr hDigit

end Token

namespace Syntax.Literal

open Token Grammar

/-! ## Tokens of numbers -/

theorem refused_integer_iff {token : Token} (hKind : token.kind = .integer) :
    token.Refused (.badNumber token.value) ↔ integer? token.value = none := by
  rw [refused_iff (hKind ▸ by decide)]
  simp only [ofToken, hKind]
  cases integer? token.value <;> simp

theorem refused_float_iff {token : Token} (hKind : token.kind = .float) :
    token.Refused (.badNumber token.value) ↔ double? token.value = none := by
  rw [refused_iff (hKind ▸ by decide)]
  simp only [ofToken, hKind]
  cases double? token.value <;> simp

theorem denotes_of_spelled {token : Token} (hKind : token.kind = .integer) {radix n : Nat}
    (hSpelled : Spelled radix n token.value.toList) (hLess : n < 2 ^ 63) :
    token.Denotes (.integer n) := by
  have hValue := hSpelled.integer?_eq
  rw [String.ofList_toList, if_pos hLess] at hValue
  exact denotes_of_ofToken (hKind ▸ by decide) (ofToken_eq_ok.mpr (.integer hKind hValue))

theorem refused_integer_iff_of_form {token : Token} (hKind : token.kind = .integer)
    (hForm : IntegerForm token.value.toList) :
    token.Refused (.badNumber token.value) ↔
      (∃ c ∈ token.value.toList, ForeignDigit c) ∨
        ∃ radix n, Spelled radix n token.value.toList ∧ 2 ^ 63 ≤ n := by
  rw [refused_integer_iff hKind, ← integer?_eq_none_iff hForm, String.ofList_toList]

theorem denotes_or_refused {token : Token} (hKind : token.kind = .integer)
    (hForm : IntegerForm token.value.toList) :
    (∃ radix n, Spelled radix n token.value.toList ∧ token.Denotes (.integer n)) ∨
      token.Refused (.badNumber token.value) := by
  rw [refused_integer_iff_of_form hKind hForm]
  by_cases hForeign : ∃ c ∈ token.value.toList, ForeignDigit c
  · exact .inr (.inl hForeign)
  · obtain ⟨radix, n, hSpelled⟩ := exists_spelled hForm (by simpa using hForeign)
    rcases Nat.lt_or_ge n (2 ^ 63) with hLess | hLarge
    · exact .inl ⟨radix, n, hSpelled, denotes_of_spelled hKind hSpelled hLess⟩
    · exact .inr (.inr ⟨radix, n, hSpelled, hLarge⟩)

theorem refused_float_iff_of_form {token : Token} (hKind : token.kind = .float)
    (hForm : FloatForm token.value.toList) :
    token.Refused (.badNumber token.value) ↔ ∃ c ∈ token.value.toList, ForeignDigit c := by
  rw [refused_float_iff hKind, ← double?_eq_none_iff hForm, String.ofList_toList]

/-! ## Sources -/

/-- The source that is a number as it is written in some radix is one token, which is the number if
it is less than `2 ^ 63` and is refused at its beginning otherwise. And every token of an integer
that is cut from a source is the number as it is written or is refused, and it is refused exactly if
it has a foreign digit or the number is too large. A token of a float is refused exactly if it has a
foreign digit. -/
theorem number_means_itself :
    (∀ (radix n : Nat) (text : List Char), Spelled radix n text → ∃ token last,
      tokenize (String.ofList text) = .ok [token, last] ∧
        token.kind = .integer ∧ token.value = String.ofList text ∧ last.kind = .eof ∧
          (n < 2 ^ 63 → token.Denotes (.integer n)) ∧
            (2 ^ 63 ≤ n → token.Refused (.badNumber token.value))) ∧
      ∀ (source : String) (tokens : List Token) (token : Token),
        tokenize source = .ok tokens → token ∈ tokens →
          (token.kind = .integer →
            ((∃ radix n, Spelled radix n token.value.toList ∧ token.Denotes (.integer n)) ∨
                token.Refused (.badNumber token.value)) ∧
              (token.Refused (.badNumber token.value) ↔
                (∃ c ∈ token.value.toList, isDigit c = true ∧ 0x80 ≤ c.toNat) ∨
                  ∃ radix n, Spelled radix n token.value.toList ∧ 2 ^ 63 ≤ n)) ∧
            (token.kind = .float →
              ((∃ value, token.Denotes (.float value)) ∨ token.Refused (.badNumber token.value)) ∧
                (token.Refused (.badNumber token.value) ↔
                  ∃ c ∈ token.value.toList, isDigit c = true ∧ 0x80 ≤ c.toNat)) := by
  refine ⟨?_, ?_⟩
  · intro radix n text hSpelled
    have hList : (String.ofList text).toList = text := String.toList_ofList
    refine ⟨_, _, (taken_spelled hSpelled).tokenize_eq, rfl, rfl, rfl, ?_, ?_⟩
    · intro hLess
      exact denotes_of_spelled rfl (hList.symm ▸ hSpelled) hLess
    · intro hLarge
      refine (refused_integer_iff rfl).mpr (hSpelled.integer?_eq.trans ?_)
      exact if_neg (Nat.not_lt.mpr hLarge)
  · intro source tokens token hTokens hMem
    constructor
    · intro hKind
      have hForm : IntegerForm token.value.toList := by
        have hForm := form_of_tokenize hTokens hMem (hKind ▸ by decide) (hKind ▸ rfl)
        rwa [hKind] at hForm
      exact ⟨denotes_or_refused hKind hForm, refused_integer_iff_of_form hKind hForm⟩
    · intro hKind
      have hForm : FloatForm token.value.toList := by
        have hForm := form_of_tokenize hTokens hMem (hKind ▸ by decide) (hKind ▸ rfl)
        rwa [hKind] at hForm
      refine ⟨?_, refused_float_iff_of_form hKind hForm⟩
      cases hValue : double? token.value with
      | none => exact .inr ((refused_float_iff hKind).mpr hValue)
      | some value =>
        have hLiteral := ofToken_eq_ok.mpr (LiteralIn.float hKind hValue)
        exact .inl ⟨value, denotes_of_ofToken (hKind ▸ by decide) hLiteral⟩

/-- A letter in either case is a digit of radix 16, and a digit of another script makes a token that
is refused. -/
theorem number_means_itself_foreign :
    (Spelled 16 255 "0x0Ff".toList ∧ ∃ token last, tokenize "0x0Ff" = .ok [token, last] ∧
      token.Denotes (.integer 255)) ∧
        let token : Token := ⟨.integer, "1\u0663", 0, 3, 1⟩
        tokenize "1\u0663" = .ok [token, .endAt 3 1] ∧ token.Refused (.badNumber "1\u0663") := by
  constructor
  · have hSpelled : Spelled 16 255 "0x0Ff".toList := .marked (by decide) ⟨1, by decide⟩
    obtain ⟨token, last, hTokens, -, -, -, hDenotes, -⟩ := number_means_itself.1 _ _ _ hSpelled
    exact ⟨hSpelled, token, last, hTokens, hDenotes (by decide)⟩
  · intro token
    have hTokens : tokenize "1\u0663" = .ok [token, .endAt 3 1] := by decide
    obtain ⟨-, hRefused⟩ :=
      (number_means_itself.2 _ _ token hTokens List.mem_cons_self).1 rfl
    exact ⟨hTokens, hRefused.mpr (.inl ⟨'\u0663', by decide⟩)⟩

end Syntax.Literal

end Jingle

import Jingle.Proofs.Token.Lexeme

/-!
# Pieces that the patterns take

The patterns look at no more of a text than they need. A piece of text that stands before a space,
or at the end, is taken as a whole by the first pattern of its own class.

* `Pattern.first?_blank`, `Pattern.first?_word`, `Pattern.first?_digits`, `Pattern.first?_string`
  and `Pattern.first?_char` give the piece at the beginning of a text by its first character.
-/

namespace Jingle.Text

theorem isBlank_eq_false {c : Char} (hLow : 0x20 < c.toNat) (hHigh : c.toNat < 0x85) :
    isBlank c = false := by
  simp only [isBlank, blankRuns, inRuns]
  rw [if_neg (by omega), if_neg (by omega), if_pos (by omega)]
  exact decide_eq_false (by omega)

theorem isDigit_eq {c : Char} (h : c.toNat < 0x660) :
    isDigit c = decide (0x30 ≤ c.toNat ∧ c.toNat ≤ 0x39) := by
  rw [isDigit, digitRuns, inRuns]
  by_cases hNine : c.toNat ≤ 0x39
  · simp [hNine]
  · rw [if_neg hNine, inRuns, if_pos (by omega)]
    simp [hNine]
    omega

theorem isDigit_iff_toNat {c : Char} : c.isDigit = true ↔ 0x30 ≤ c.toNat ∧ c.toNat ≤ 0x39 := by
  simp [Char.isDigit, UInt32.le_iff_toNat_le]

theorem isDigit_of_isDigit {c : Char} (h : c.isDigit = true) : isDigit c = true := by
  obtain ⟨hLow, hHigh⟩ := isDigit_iff_toNat.mp h
  rw [isDigit_eq (by omega), decide_eq_true ⟨hLow, hHigh⟩]

end Jingle.Text

namespace Jingle.Token

open Text

/-! ## Shapes -/

/-- A text that a piece of text may stand before: it is empty or begins with a space. -/
def Apart (rest : List Char) : Prop :=
  ∀ c ∈ rest.head?, c = ' '

theorem apart_nil : Apart [] := by
  simp [Apart]

theorem apart_space (text : List Char) : Apart (' ' :: text) := by
  simp [Apart]

theorem Apart.head {p : Char → Bool} {rest : List Char} (hRest : Apart rest) (h : p ' ' = false) :
    ∀ c ∈ rest.head?, p c = false :=
  fun c hc => hRest c hc ▸ h

namespace Shape

theorem one_of_false {p : Char → Bool} {c : Char} {text : List Char} (h : p c = false) :
    one p (c :: text) = none := by
  simp [one, h]

theorem one_of_head? {p : Char → Bool} {rest : List Char} (h : ∀ c ∈ rest.head?, p c = false) :
    one p rest = none := by
  cases rest with
  | nil => rfl
  | cons c rest => exact one_of_false (h c rfl)

theorem andThen_of_none {first second : Shape} {text : List Char} (h : first text = none) :
    first.andThen second text = none := by
  simp [andThen, h]

theorem andThen_of_some {first second : Shape} {text : List Char} {n : Nat}
    (h : first text = some n) :
    first.andThen second text = (second (text.drop n)).map (n + ·) := by
  simp [andThen, h]

theorem run_of_false {p : Char → Bool} {c : Char} {text : List Char} (h : p c = false) :
    run p (c :: text) = none :=
  andThen_of_none (one_of_false h)

theorem run_of_true {p : Char → Bool} {c : Char} {text : List Char} (h : p c = true) :
    run p (c :: text) = some (1 + (text.takeWhile p).length) := by
  simp [run, andThen, one, many, h]

end Shape

theorem takeWhile_append_of_head? {p : Char → Bool} {piece rest : List Char}
    (hPiece : ∀ c ∈ piece, p c = true) (hRest : ∀ c ∈ rest.head?, p c = false) :
    (piece ++ rest).takeWhile p = piece := by
  rw [List.takeWhile_append_of_pos hPiece]
  cases rest with
  | nil => simp
  | cons c rest => simp [hRest c rfl]

theorem dropWhile_append_of_head? {p : Char → Bool} {piece rest : List Char}
    (hPiece : ∀ c ∈ piece, p c = true) (hRest : ∀ c ∈ rest.head?, p c = false) :
    (piece ++ rest).dropWhile p = rest := by
  have hBoth := List.takeWhile_append_dropWhile (p := p) (l := piece ++ rest)
  rw [takeWhile_append_of_head? hPiece hRest] at hBoth
  exact List.append_cancel_left hBoth

/-- A class stops before a text that stands apart, unless spaces belong to it. -/
theorem takeWhile_append_of_apart {p : Char → Bool} {piece rest : List Char}
    (hPiece : ∀ c ∈ piece, p c = true) (hRest : Apart rest) (h : p ' ' = false) :
    (piece ++ rest).takeWhile p = piece :=
  takeWhile_append_of_head? hPiece (hRest.head h)

theorem Shape.run_append {p : Char → Bool} {piece rest : List Char}
    (hPiece : ∀ c ∈ piece, p c = true) (hNe : piece ≠ []) (hRest : ∀ c ∈ rest.head?, p c = false) :
    run p (piece ++ rest) = some piece.length := by
  cases piece with
  | nil => exact absurd rfl hNe
  | cons c piece =>
    obtain ⟨hFirst, hOthers⟩ := List.forall_mem_cons.mp hPiece
    rw [List.cons_append, run_of_true hFirst, takeWhile_append_of_head? hOthers hRest,
      List.length_cons, Nat.add_comm]

theorem Shape.exactly_of_ne {c d : Char} {word text : List Char} (h : d ≠ c) :
    exactly (d :: word) (c :: text) = none := by
  simp [exactly, h]

/-! ## Patterns that do not match -/

theorem float_of_false {c : Char} {text : List Char} (hDigit : isDigit c = false)
    (hPoint : c ≠ '.') : float (c :: text) = none := by
  have hRun : Shape.run isDigit (c :: text) = none := Shape.run_of_false hDigit
  have hOne : Shape.one (fun d => decide (d = '.')) (c :: text) = none :=
    Shape.one_of_false (decide_eq_false hPoint)
  simp only [float, Shape.orElse, Shape.andThen, hRun, hOne, Option.bind_none, Option.none_or]

theorem inRadix_of_ne {lower upper : Char} {radix : Nat} {c : Char} {text : List Char}
    (h : c ≠ '0') : inRadix lower upper radix (c :: text) = none :=
  Shape.andThen_of_none (Shape.one_of_false (decide_eq_false h))

theorem integer_of_false {c : Char} {text : List Char} (hDigit : isDigit c = false) :
    integer (c :: text) = none := by
  have hZero : c ≠ '0' := by
    rintro rfl
    cases hDigit
  simp only [integer, Shape.orElse, inRadix_of_ne hZero, Shape.run_of_false hDigit, Option.none_or]

/-! ## Decimal digits -/

section Digits

variable {digits rest : List Char} (hDigits : ∀ c ∈ digits, c.isDigit = true) (hNe : digits ≠ [])

include hDigits hNe

theorem run_digits (hRest : ∀ c ∈ rest.head?, isDigit c = false) :
    Shape.run isDigit (digits ++ rest) = some digits.length :=
  Shape.run_append (fun c hc => isDigit_of_isDigit (hDigits c hc)) hNe hRest

/-- Decimal digits begin no float if neither a point nor an exponent follows them. -/
theorem float_digits
    (hRest : ∀ c ∈ rest.head?, isDigit c = false ∧ c ≠ '.' ∧ ¬ (c = 'e' ∨ c = 'E')) :
    float (digits ++ rest) = none := by
  have hRun : Shape.run isDigit (digits ++ rest) = some digits.length :=
    run_digits hDigits hNe fun c hc => (hRest c hc).1
  have hPoint : Shape.one (fun c => decide (c = '.')) rest = none :=
    Shape.one_of_head? fun c hc => decide_eq_false (hRest c hc).2.1
  have hExponent : exponent rest = none :=
    Shape.andThen_of_none (Shape.one_of_head? fun c hc => decide_eq_false (hRest c hc).2.2)
  have hFirst : Shape.one (fun c => decide (c = '.')) (digits ++ rest) = none := by
    cases digits with
    | nil => exact hPoint
    | cons c digits =>
      apply Shape.one_of_false
      apply decide_eq_false
      rintro rfl
      exact absurd (hDigits '.' (List.mem_cons_self ..)) (by decide)
  simp [float, Shape.orElse, Shape.andThen, hRun, hPoint, hExponent, hFirst]

variable (hRest : Apart rest)

include hRest

theorem inRadix_digits {lower upper : Char} {radix : Nat}
    (hLower : lower ≠ ' ' ∧ lower.isDigit = false) (hUpper : upper ≠ ' ' ∧ upper.isDigit = false) :
    inRadix lower upper radix (digits ++ rest) = none := by
  cases digits with
  | nil => exact absurd rfl hNe
  | cons c digits =>
    have hLetter : Shape.one (fun d => decide (d = lower ∨ d = upper)) (digits ++ rest) = none := by
      cases digits with
      | nil => exact Shape.one_of_head? (hRest.head (by simp [hLower.1.symm, hUpper.1.symm]))
      | cons d digits =>
        have hDigit : d.isDigit = true := hDigits d (by simp)
        apply Shape.one_of_false
        apply decide_eq_false
        rintro (rfl | rfl)
        · simp [hDigit] at hLower
        · simp [hDigit] at hUpper
    by_cases hZero : c = '0'
    · have hFirst : Shape.one (fun d => decide (d = '0')) (c :: (digits ++ rest)) = some 1 := by
        simp [Shape.one, hZero]
      rw [inRadix, List.cons_append, Shape.andThen_of_some hFirst, List.drop_one, List.tail_cons,
        Shape.andThen_of_none hLetter]
      rfl
    · exact inRadix_of_ne hZero

theorem integer_digits : integer (digits ++ rest) = some digits.length := by
  simp only [integer, Shape.orElse]
  rw [inRadix_digits hDigits hNe hRest (by decide) (by decide),
    inRadix_digits hDigits hNe hRest (by decide) (by decide),
    inRadix_digits hDigits hNe hRest (by decide) (by decide),
    run_digits hDigits hNe (hRest.head rfl)]
  rfl

end Digits

/-! ## Words -/

theorem toNat_of_isUpper {c : Char} (h : c.isUpper = true) : 0x41 ≤ c.toNat ∧ c.toNat ≤ 0x5a := by
  have hRange : decide (c.val ≥ 0x41 ∧ c.val ≤ 0x5a) = true := h
  simpa [UInt32.le_iff_toNat_le] using hRange

theorem toNat_of_isLower {c : Char} (h : c.isLower = true) : 0x61 ≤ c.toNat ∧ c.toNat ≤ 0x7a := by
  have hRange : (decide (c.val ≥ 0x61) && decide (c.val ≤ 0x7a)) = true := h
  simpa [UInt32.le_iff_toNat_le] using hRange

theorem toNat_of_isWordStart {c : Char} (h : isWordStart c = true) :
    0x40 < c.toNat ∧ c.toNat < 0x80 := by
  have hCases : (c.isUpper || c.isLower || decide (c = '_')) = true := h
  simp only [Bool.or_eq_true, decide_eq_true_eq] at hCases
  rcases hCases with (hUpper | hLower) | rfl
  · have := toNat_of_isUpper hUpper
    omega
  · have := toNat_of_isLower hLower
    omega
  · decide

/-! ## Literals in quotes -/

theorem stringRest_forms (body rest : List Char) :
    stringRest (body.flatMap stringForm ++ '"' :: rest) =
      some ((body.flatMap stringForm).length + 1) := by
  induction body with
  | nil => rfl
  | cons c body ih =>
    rw [List.flatMap_cons, List.append_assoc, stringForm]
    split
    · next h =>
      have hLine : c ≠ '\n' := by
        rintro rfl
        exact absurd h (by decide)
      simp [stringRest, hLine, ih]
    · next h =>
      obtain ⟨hBackslash, hQuote⟩ := not_or.mp h
      rw [List.singleton_append, stringRest.eq_5 _ _ (by simpa using hQuote) (by simp [hBackslash])
        (by simp [hBackslash]), ih]
      simp

theorem stringLiteral_forms (body rest : List Char) :
    stringLiteral ('"' :: (body.flatMap stringForm ++ '"' :: rest)) =
      some ((body.flatMap stringForm).length + 2) := by
  rw [stringLiteral, Shape.andThen_of_some (n := 1) rfl, List.drop_one, List.tail_cons,
    stringRest_forms, Option.map_some, Nat.add_comm]

theorem charLiteral_form (c : Char) (rest : List Char) :
    charLiteral ('\'' :: (charForm c ++ '\'' :: rest)) = some ((charForm c).length + 2) := by
  rw [charForm]
  split
  · rfl
  · split
    · next hLine h =>
      rcases h with rfl | rfl
      · rfl
      · rfl
    · next hLine h =>
      obtain ⟨hQuote, hBackslash⟩ := not_or.mp h
      simp [charLiteral, charBody, Shape.andThen, Shape.orElse, Shape.one, Shape.exactly, hLine,
        hQuote, hBackslash, Ne.symm hBackslash]

/-! ## The first pattern that matches -/

namespace Pattern

theorem first?_append (patterns others : List Pattern) (text : List Char) :
    first? (patterns ++ others) text = (first? patterns text).or (first? others text) := by
  simp only [first?, List.findSome?_append]

theorem first?_eq_none_iff {patterns : List Pattern} {text : List Char} :
    first? patterns text = none ↔ ∀ pattern ∈ patterns, pattern.shape text = none := by
  simp [first?]

theorem first?_eq_some_iff {patterns : List Pattern} {text : List Char} {n : Nat} {role : Role} :
    first? patterns text = some (n, role) ↔
      ∃ before pattern after, patterns = before ++ pattern :: after ∧ pattern.role = role ∧
        (∀ other ∈ before, other.shape text = none) ∧ pattern.shape text = some n := by
  rw [first?, List.findSome?_eq_some_iff]
  constructor
  · rintro ⟨before, pattern, after, hPatterns, hPattern, hBefore⟩
    obtain ⟨m, hText, hPair⟩ := Option.map_eq_some_iff.mp hPattern
    obtain ⟨rfl, rfl⟩ := Prod.mk.inj hPair
    refine ⟨before, pattern, after, hPatterns, rfl, ?_, hText⟩
    intro other hOther
    exact Option.map_eq_none_iff.mp (hBefore other hOther)
  · rintro ⟨before, pattern, after, hPatterns, rfl, hBefore, hText⟩
    refine ⟨before, pattern, after, hPatterns, by rw [hText]; rfl, ?_⟩
    intro other hOther
    rw [hBefore other hOther]
    rfl

/-- A pattern of the table decides if no pattern before it matches. -/
theorem first?_table {k : Nat} {pattern : Pattern} {others : List Pattern} {text : List Char}
    {n : Nat} (hTable : table.drop k = pattern :: others)
    (hBefore : first? (table.take k) text = none) (hShape : pattern.shape text = some n) :
    first? table text = some (n, pattern.role) := by
  rw [← List.take_append_drop k table, first?_append, hBefore, hTable]
  simp [first?, hShape]

theorem first?_blank {c : Char} {text : List Char} (h : isBlank c = true) :
    first? table (c :: text) = some (1 + (text.takeWhile isBlank).length, .gap) :=
  first?_table (k := 0) rfl rfl (Shape.run_of_true h)

/-- Neither blanks nor comments begin with a letter, a digit or an underscore. -/
theorem first?_gaps_eq_none {c : Char} (text : List Char) (hLow : 0x2f < c.toNat)
    (hHigh : c.toNat < 0x80) : first? (table.take 3) (c :: text) = none := by
  have hBlank : isBlank c = false := isBlank_eq_false (by omega) (by omega)
  have hSlash : '/' ≠ c := by
    rintro rfl
    exact absurd hLow (by decide)
  simp [first?, table, Shape.run_of_false hBlank, blockComment, lineComment, Shape.andThen,
    Shape.exactly_of_ne hSlash]

theorem first?_word {c : Char} {text : List Char} (h : isWordStart c = true) :
    first? table (c :: text) = some (1 + (text.takeWhile isWordPart).length, .word) := by
  obtain ⟨hLow, hHigh⟩ := toNat_of_isWordStart h
  have hDigit : isDigit c = false := by
    rw [isDigit_eq (by omega)]
    exact decide_eq_false (by omega)
  have hNe (d : Char) (hd : d.toNat ≤ 0x40) : c ≠ d := by
    rintro rfl
    omega
  have hGaps := first?_gaps_eq_none text (by omega) hHigh
  have hChar : charLiteral (c :: text) = none :=
    Shape.andThen_of_none (Shape.one_of_false (decide_eq_false (hNe '\'' (by decide))))
  have hString : stringLiteral (c :: text) = none :=
    Shape.andThen_of_none (Shape.one_of_false (decide_eq_false (hNe '"' (by decide))))
  refine first?_table (k := 7) rfl ?_ ?_
  · rw [show table.take 7 = table.take 3 ++ (table.drop 3).take 4 from rfl, first?_append, hGaps]
    simp [first?, table, float_of_false hDigit (hNe '.' (by decide)), integer_of_false hDigit,
      hChar, hString]
  · simp [word, Shape.andThen, Shape.one, Shape.many, h]

/-- A text that begins with an integer and with no float gives the integer. -/
theorem first?_integer {c : Char} {text : List Char} {n : Nat} (hDigit : c.isDigit = true)
    (hFloat : float (c :: text) = none) (hInteger : integer (c :: text) = some n) :
    first? table (c :: text) = some (n, .plain .integer) := by
  obtain ⟨hLow, hHigh⟩ := isDigit_iff_toNat.mp hDigit
  have hGaps : first? (table.take 3) (c :: text) = none :=
    first?_gaps_eq_none text (by omega) (by omega)
  refine first?_table (k := 4) rfl ?_ hInteger
  rw [show table.take 4 = table.take 3 ++ (table.drop 3).take 1 from rfl, first?_append, hGaps]
  simp [first?, table, hFloat]

theorem first?_digits {digits rest : List Char} (hDigits : ∀ c ∈ digits, c.isDigit = true)
    (hNe : digits ≠ []) (hRest : Apart rest) :
    first? table (digits ++ rest) = some (digits.length, .plain .integer) := by
  have hFloat : float (digits ++ rest) = none := by
    refine float_digits hDigits hNe fun c hc => ?_
    rw [hRest c hc]
    decide
  have hInteger := integer_digits hDigits hNe hRest
  cases digits with
  | nil => exact absurd rfl hNe
  | cons c digits => exact first?_integer (hDigits c List.mem_cons_self) hFloat hInteger

theorem first?_string (body rest : List Char) :
    first? table ('"' :: (body.flatMap stringForm ++ '"' :: rest)) =
      some ((body.flatMap stringForm).length + 2, .quoted .string) :=
  first?_table (k := 6) rfl rfl (stringLiteral_forms body rest)

theorem first?_char (c : Char) (rest : List Char) :
    first? table ('\'' :: (charForm c ++ '\'' :: rest)) =
      some ((charForm c).length + 2, .quoted .char) :=
  first?_table (k := 5) rfl rfl (charLiteral_form c rest)

end Pattern

end Jingle.Token

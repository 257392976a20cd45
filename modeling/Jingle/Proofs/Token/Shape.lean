import Jingle.Token.Pattern

/-!
# What shapes take

A shape that matches takes some characters from the beginning of a text. What they are follows from
the shape, and where the shape takes as many as there are it follows as well what the rest of the
text does not begin with.

* `Shape.Takes shape P` says that whatever the shape takes has the property `P`, together with the
  rest of the text.
* `Skipped` describes blanks and comments, `Kind.Form` the texts of tokens, and `Role.Fits` the
  pieces of any role.
* `Pattern.first?_fits` says that the piece that is taken by the table fits its role.
-/

namespace Jingle.Token

open Text

/-- Whatever a shape takes is the beginning of the text, and has a property together with the rest
of the text. -/
def Shape.Takes (shape : Shape) (P : List Char → List Char → Prop) : Prop :=
  ∀ ⦃text : List Char⦄ ⦃n : Nat⦄, shape text = some n →
    ∃ piece rest, text = piece ++ rest ∧ piece.length = n ∧ P piece rest

namespace Shape

section Rules

variable {first second : Shape} {P Q : List Char → List Char → Prop}

theorem Takes.mono (h : first.Takes P) (hPQ : ∀ piece rest, P piece rest → Q piece rest) :
    first.Takes Q := by
  intro text n hText
  obtain ⟨piece, rest, hPiece, hLength, hP⟩ := h hText
  exact ⟨piece, rest, hPiece, hLength, hPQ piece rest hP⟩

theorem takes_one (p : Char → Bool) :
    (one p).Takes fun piece _ => ∃ c, piece = [c] ∧ p c = true := by
  intro text n hText
  cases text with
  | nil => cases hText
  | cons c text =>
    rw [one] at hText
    split at hText
    · next hChar =>
      cases hText
      exact ⟨[c], text, rfl, rfl, c, rfl, hChar⟩
    · cases hText

theorem takes_many (p : Char → Bool) : (many p).Takes fun piece rest =>
    (∀ c ∈ piece, p c = true) ∧ ∀ c ∈ rest.head?, p c = false := by
  intro text n hText
  cases hText
  refine ⟨text.takeWhile p, text.dropWhile p, List.takeWhile_append_dropWhile.symm, rfl, ?_, ?_⟩
  · exact List.all_eq_true.mp List.all_takeWhile
  · intro c hc
    have hHead := List.head?_dropWhile_not p text
    rw [Option.mem_def.mp hc] at hHead
    simpa using hHead

theorem takes_exactly (word : List Char) : (exactly word).Takes fun piece _ => piece = word := by
  intro text n hText
  rw [exactly] at hText
  split at hText
  · next hWord =>
    cases hText
    obtain ⟨rest, rfl⟩ := List.isPrefixOf_iff_prefix.mp hWord
    exact ⟨word, rest, rfl, rfl, rfl⟩
  · cases hText

theorem Takes.andThen (h : first.Takes P) (h' : second.Takes Q) :
    (first.andThen second).Takes fun piece rest =>
      ∃ front back, piece = front ++ back ∧ P front (back ++ rest) ∧ Q back rest := by
  intro text n hText
  obtain ⟨k, hFirst, hRest⟩ := Option.bind_eq_some_iff.mp hText
  obtain ⟨m, hSecond, rfl⟩ := Option.map_eq_some_iff.mp hRest
  obtain ⟨front, others, rfl, rfl, hP⟩ := h hFirst
  rw [List.drop_left] at hSecond
  obtain ⟨back, rest, rfl, rfl, hQ⟩ := h' hSecond
  exact ⟨front ++ back, rest, by simp, by simp, front, back, rfl, hP, hQ⟩

theorem Takes.orElse (h : first.Takes P) (h' : second.Takes P) : (first.orElse second).Takes P := by
  intro text n hText
  rcases Option.or_eq_some_iff.mp hText with hFirst | ⟨-, hSecond⟩
  · exact h hFirst
  · exact h' hSecond

theorem Takes.optional (h : first.Takes P) :
    first.optional.Takes fun piece rest => P piece rest ∨ piece = [] := by
  refine (h.mono fun _ _ => .inl).orElse ?_
  intro text n hText
  cases hText
  exact ⟨[], text, rfl, rfl, .inr rfl⟩

theorem takes_run (p : Char → Bool) : (run p).Takes fun piece rest =>
    piece ≠ [] ∧ (∀ c ∈ piece, p c = true) ∧ ∀ c ∈ rest.head?, p c = false := by
  refine ((takes_one p).andThen (takes_many p)).mono ?_
  rintro piece rest ⟨front, back, rfl, ⟨c, rfl, hChar⟩, hBack, hRest⟩
  exact ⟨by simp, by simpa [hChar] using hBack, hRest⟩

end Rules

end Shape

open Shape

theorem takes_word : word.Takes fun piece _ => piece ≠ [] := by
  refine ((takes_one _).andThen (takes_many _)).mono ?_
  rintro piece rest ⟨_, others, rfl, ⟨c, rfl, -⟩, -⟩
  exact List.cons_ne_nil c others

/-! ## Numbers -/

/-- The digits of an exponent after its letter and at most one sign. -/
inductive ExponentForm : List Char → Prop where
  | exponent {letter : Char} {sign digits : List Char} : letter = 'e' ∨ letter = 'E' →
      sign = [] ∨ sign = ['+'] ∨ sign = ['-'] → digits ≠ [] → (∀ c ∈ digits, isDigit c = true) →
      ExponentForm (letter :: (sign ++ digits))

/-- Digits around a point, at least one. -/
inductive PointForm : List Char → Prop where
  | point {whole places : List Char} : (∀ c ∈ whole, isDigit c = true) →
      (∀ c ∈ places, isDigit c = true) → whole ++ places ≠ [] → PointForm (whole ++ '.' :: places)

/-- The text of a float: digits around a point, maybe with an exponent, or digits and an
exponent. -/
inductive FloatForm : List Char → Prop where
  | pointed {digits tail : List Char} : PointForm digits → tail = [] ∨ ExponentForm tail →
      FloatForm (digits ++ tail)
  | whole {digits tail : List Char} : digits ≠ [] → (∀ c ∈ digits, isDigit c = true) →
      ExponentForm tail → FloatForm (digits ++ tail)

/-- The letters that mark a radix after a zero. -/
def radixLetters : List (Char × Nat) :=
  [('x', 16), ('X', 16), ('b', 2), ('B', 2), ('o', 8), ('O', 8)]

/-- The text of an integer: digits of a radix after its mark, or decimal digits. -/
inductive IntegerForm : List Char → Prop where
  | marked {letter : Char} {radix : Nat} {digits : List Char} : (letter, radix) ∈ radixLetters →
      digits ≠ [] → (∀ c ∈ digits, isDigitOf radix c = true) → IntegerForm ('0' :: letter :: digits)
  | decimal {digits : List Char} : digits ≠ [] → (∀ c ∈ digits, isDigit c = true) →
      IntegerForm digits

theorem takes_exponent : exponent.Takes fun piece _ => ExponentForm piece := by
  refine ((takes_one _).andThen ((takes_one _).optional.andThen (takes_run _))).mono ?_
  rintro piece rest ⟨_, _, rfl, ⟨letter, rfl, hLetter⟩, sign, digits, rfl, hSign, hNe, hDigits, -⟩
  have hSign' : sign = [] ∨ sign = ['+'] ∨ sign = ['-'] := by
    rcases hSign with ⟨c, rfl, hSign⟩ | rfl
    · rcases of_decide_eq_true hSign with rfl | rfl
      · exact .inr (.inl rfl)
      · exact .inr (.inr rfl)
    · exact .inl rfl
  show ExponentForm (letter :: (sign ++ digits))
  exact .exponent (of_decide_eq_true hLetter) hSign' hNe hDigits

theorem takes_float : float.Takes fun piece _ => FloatForm piece := by
  have hPoint := takes_one (· = '.')
  have hDigits := takes_run isDigit
  have hAround := (hDigits.andThen (hPoint.andThen (takes_many isDigit))).mono
    (Q := fun piece _ => PointForm piece) (by
      rintro piece rest ⟨whole, _, rfl, ⟨hNe, hWhole, -⟩, _, places, rfl, ⟨c, rfl, hc⟩, hPlaces, -⟩
      obtain rfl : c = '.' := of_decide_eq_true hc
      exact .point hWhole hPlaces (List.append_ne_nil_of_left_ne_nil hNe places))
  have hBefore := (hPoint.andThen hDigits).mono (Q := fun piece _ => PointForm piece) (by
    rintro piece rest ⟨_, places, rfl, ⟨c, rfl, hc⟩, hNe, hPlaces, -⟩
    obtain rfl : c = '.' := of_decide_eq_true hc
    exact .point (List.forall_mem_nil _) hPlaces hNe)
  refine Takes.orElse (((hAround.orElse hBefore).andThen takes_exponent.optional).mono ?_)
    ((hDigits.andThen takes_exponent).mono ?_)
  · rintro piece rest ⟨digits, tail, rfl, hForm, hTail⟩
    exact .pointed hForm hTail.symm
  · rintro piece rest ⟨digits, tail, rfl, ⟨hNe, hForm, -⟩, hTail⟩
    exact .whole hNe hForm hTail

theorem takes_inRadix (lower upper : Char) (radix : Nat) :
    (inRadix lower upper radix).Takes fun piece _ =>
      ∃ letter digits, piece = '0' :: letter :: digits ∧ (letter = lower ∨ letter = upper) ∧
        digits ≠ [] ∧ ∀ c ∈ digits, isDigitOf radix c = true := by
  refine ((takes_one _).andThen ((takes_one _).andThen (takes_run _))).mono ?_
  rintro piece rest
    ⟨_, _, rfl, ⟨zero, rfl, hZero⟩, _, digits, rfl, ⟨letter, rfl, hLetter⟩, hNe, hDigits, -⟩
  obtain rfl : zero = '0' := of_decide_eq_true hZero
  exact ⟨letter, digits, rfl, of_decide_eq_true hLetter, hNe, hDigits⟩

theorem takes_integer : integer.Takes fun piece _ => IntegerForm piece := by
  have hMarked {lower upper : Char} {radix : Nat} (hLower : (lower, radix) ∈ radixLetters)
      (hUpper : (upper, radix) ∈ radixLetters) :
      (inRadix lower upper radix).Takes fun piece _ => IntegerForm piece := by
    refine (takes_inRadix lower upper radix).mono ?_
    rintro piece rest ⟨letter, digits, rfl, rfl | rfl, hNe, hDigits⟩
    · exact .marked hLower hNe hDigits
    · exact .marked hUpper hNe hDigits
  refine (hMarked (by decide) (by decide)).orElse ((hMarked (by decide) (by decide)).orElse
    ((hMarked (by decide) (by decide)).orElse ((takes_run _).mono ?_)))
  exact fun _ _ ⟨hNe, hDigits, _⟩ => .decimal hNe hDigits

theorem FloatForm.ne_nil {text : List Char} (h : FloatForm text) : text ≠ [] := by
  cases h with
  | pointed hForm _ =>
    cases hForm with
    | point => simp
  | whole hNe _ _ => exact List.append_ne_nil_of_left_ne_nil hNe _

theorem IntegerForm.ne_nil {text : List Char} (h : IntegerForm text) : text ≠ [] := by
  cases h with
  | marked => exact List.cons_ne_nil _ _
  | decimal hNe _ => exact hNe

/-! ## Blanks and comments -/

/-- A piece of text that is left out, before the rest of the text: all blanks up to something else,
a comment up to the end of its line, or a comment up to the first star that a slash follows. -/
inductive Skipped : List Char → List Char → Prop where
  | blanks {run rest : List Char} : run ≠ [] → (∀ c ∈ run, isBlank c = true) →
      (∀ c ∈ rest.head?, isBlank c = false) → Skipped run rest
  | lineComment {body rest : List Char} : '\n' ∉ body → (∀ c ∈ rest.head?, c = '\n') →
      Skipped ('/' :: '/' :: body) rest
  | blockComment {body rest : List Char} : ¬ ['*', '/'] <:+: body ++ ['*'] →
      Skipped ('/' :: '*' :: (body ++ ['*', '/'])) rest

theorem takes_blanks : (Shape.run isBlank).Takes Skipped :=
  (takes_run isBlank).mono fun _ _ ⟨hNe, hBlank, hRest⟩ => .blanks hNe hBlank hRest

theorem takes_lineComment : lineComment.Takes Skipped := by
  refine ((takes_exactly _).andThen (takes_many _)).mono ?_
  rintro piece rest ⟨front, body, rfl, rfl, hBody, hRest⟩
  apply Skipped.lineComment
  · intro hFeed
    simpa using hBody _ hFeed
  · intro c hc
    simpa using hRest c hc

theorem takes_commentRest : commentRest.Takes fun piece _ =>
    ∃ body, piece = body ++ ['*', '/'] ∧ ¬ ['*', '/'] <:+: body ++ ['*'] := by
  intro text n hText
  induction text using commentRest.induct generalizing n with
  | case1 => cases hText
  | case2 text =>
    cases hText
    refine ⟨['*', '/'], text, rfl, rfl, [], rfl, ?_⟩
    intro h
    exact absurd h.length_le (by decide)
  | case3 c text hStar ih =>
    rw [commentRest.eq_3 _ _ hStar] at hText
    obtain ⟨m, hRest, rfl⟩ := Option.map_eq_some_iff.mp hText
    obtain ⟨piece, rest, rfl, rfl, body, rfl, hBody⟩ := ih hRest
    refine ⟨c :: (body ++ ['*', '/']), rest, rfl, rfl, c :: body, rfl, ?_⟩
    -- An earlier end could only begin with the character that has been passed here.
    intro h
    rcases List.infix_cons_iff.mp h with hFirst | hLater
    · obtain ⟨rfl, hSlash⟩ := List.cons_prefix_cons.mp hFirst
      cases body with
      | nil => exact absurd (List.cons_prefix_cons.mp hSlash).1 (by decide)
      | cons d body =>
        obtain ⟨rfl, -⟩ := List.cons_prefix_cons.mp hSlash
        exact hStar _ rfl rfl
    · exact hBody hLater

theorem takes_blockComment : blockComment.Takes Skipped := by
  refine ((takes_exactly _).andThen takes_commentRest).mono ?_
  rintro piece rest ⟨front, back, rfl, rfl, body, rfl, hBody⟩
  exact .blockComment hBody

/-! ## Literals in quotes -/

/-- The quote around the literals of a kind. -/
def Kind.quote? : Kind → Option Char
  | .char => some '\''
  | .string => some '"'
  | _ => none

/-- The body of a character literal: a code of two digits, another escape or a single character. -/
inductive CharBody : List Char → Prop where
  | code {high low : Char} : isDigitOf 16 high = true → isDigitOf 16 low = true →
      CharBody ['\\', 'x', high, low]
  | escape {c : Char} : c ≠ '\n' → CharBody ['\\', c]
  | plain {c : Char} : c ≠ '\'' → c ≠ '\\' → c ≠ '\n' → CharBody [c]

theorem takes_charBody : charBody.Takes fun piece _ => CharBody piece := by
  refine Takes.orElse (((takes_exactly _).andThen ((takes_one _).andThen (takes_one _))).mono ?_)
    (Takes.orElse (((takes_one _).andThen (takes_one _)).mono ?_) ((takes_one _).mono ?_))
  · rintro piece rest ⟨_, _, rfl, rfl, _, _, rfl, ⟨high, rfl, hHigh⟩, low, rfl, hLow⟩
    exact .code hHigh hLow
  · rintro piece rest ⟨_, _, rfl, ⟨backslash, rfl, hBackslash⟩, c, rfl, hFeed⟩
    obtain rfl : backslash = '\\' := of_decide_eq_true hBackslash
    exact .escape (of_decide_eq_true hFeed)
  · rintro piece rest ⟨c, rfl, hPlain⟩
    obtain ⟨hQuote, hBackslash, hFeed⟩ := of_decide_eq_true hPlain
    exact .plain hQuote hBackslash hFeed

theorem takes_charLiteral : charLiteral.Takes fun piece _ =>
    ∃ body, CharBody body ∧ piece = '\'' :: (body ++ ['\'']) := by
  refine ((takes_one _).andThen (takes_charBody.andThen (takes_one _))).mono ?_
  rintro piece rest ⟨_, _, rfl, ⟨c, rfl, hOpen⟩, body, _, rfl, hBody, d, rfl, hClose⟩
  obtain rfl : c = '\'' := of_decide_eq_true hOpen
  obtain rfl : d = '\'' := of_decide_eq_true hClose
  exact ⟨body, hBody, rfl⟩

theorem takes_stringRest : stringRest.Takes fun piece _ => ∃ body, piece = body ++ ['"'] := by
  intro text n hText
  induction text using stringRest.induct generalizing n with
  | case1 => cases hText
  | case2 text =>
    cases hText
    exact ⟨['"'], text, rfl, rfl, [], rfl⟩
  | case3 => cases hText
  | case4 => cases hText
  | case5 c text hFeed ih =>
    rw [stringRest, if_neg hFeed] at hText
    obtain ⟨m, hRest, rfl⟩ := Option.map_eq_some_iff.mp hText
    obtain ⟨piece, rest, rfl, rfl, body, rfl⟩ := ih hRest
    exact ⟨'\\' :: c :: (body ++ ['"']), rest, rfl, rfl, '\\' :: c :: body, rfl⟩
  | case6 c text hQuote hLast hEscape ih =>
    rw [stringRest.eq_5 _ _ hQuote hLast hEscape] at hText
    obtain ⟨m, hRest, rfl⟩ := Option.map_eq_some_iff.mp hText
    obtain ⟨piece, rest, rfl, rfl, body, rfl⟩ := ih hRest
    exact ⟨c :: (body ++ ['"']), rest, rfl, rfl, c :: body, rfl⟩

theorem takes_stringLiteral : stringLiteral.Takes fun piece _ =>
    ∃ body, piece = '"' :: (body ++ ['"']) := by
  refine ((takes_one _).andThen takes_stringRest).mono ?_
  rintro piece rest ⟨_, _, rfl, ⟨c, rfl, hOpen⟩, body, rfl⟩
  obtain rfl : c = '"' := by simpa using hOpen
  exact ⟨body, rfl⟩

/-! ## The table -/

/-- The form of the text of a token of the kind, without the quotes around it. -/
def Kind.Form : Kind → List Char → Prop
  | .integer, text => IntegerForm text
  | .float, text => FloatForm text
  | .char, body => CharBody body
  | .string, _ => True
  | _, text => text ≠ []

theorem Kind.Form.ne_nil {kind : Kind} {text : List Char} (h : kind.Form text)
    (hQuote : kind.quote? = none) : text ≠ [] := by
  cases kind with
  | integer => exact IntegerForm.ne_nil h
  | float => exact FloatForm.ne_nil h
  | char | string => cases hQuote
  | _ => exact h

/-- What a piece of text is, before the rest of the text, if a pattern with the given role takes
it. -/
def Role.Fits : Role → List Char → List Char → Prop
  | .gap, piece, rest => Skipped piece rest
  | .plain kind, piece, _ => kind.Form piece ∧ kind.quote? = none ∧ kind ≠ .eof
  | .quoted kind, piece, _ =>
    ∃ quote body, kind.quote? = some quote ∧ kind.Form body ∧ piece = quote :: (body ++ [quote])
  | .word, piece, _ => piece ≠ []

theorem Role.Fits.ne_nil {role : Role} {piece rest : List Char} (h : role.Fits piece rest) :
    piece ≠ [] := by
  cases role with
  | gap =>
    cases h with
    | blanks hNe => exact hNe
    | lineComment | blockComment => simp
  | plain kind => exact h.1.ne_nil h.2.1
  | quoted kind =>
    obtain ⟨quote, body, -, -, rfl⟩ := h
    simp
  | word => exact h

namespace Pattern

theorem fixed_fits {text : String} {kind : Kind} (hText : kind.Form text.toList)
    (hQuote : kind.quote? = none) (hEnd : kind ≠ .eof) :
    (fixed text kind).shape.Takes (fixed text kind).role.Fits := by
  refine (takes_exactly _).mono ?_
  rintro piece rest rfl
  exact ⟨hText, hQuote, hEnd⟩

theorem table_fits : ∀ pattern ∈ table, pattern.shape.Takes pattern.role.Fits := by
  simp only [table, List.forall_mem_cons, List.not_mem_nil, false_implies, implies_true, and_true]
  refine ⟨takes_blanks, takes_blockComment, takes_lineComment, ?_, ?_, ?_, ?_, takes_word, ?_⟩
  · exact takes_float.mono fun _ _ h => ⟨h, rfl, by decide⟩
  · exact takes_integer.mono fun _ _ h => ⟨h, rfl, by decide⟩
  · refine takes_charLiteral.mono ?_
    rintro piece rest ⟨body, hBody, hPiece⟩
    exact ⟨_, body, rfl, hBody, hPiece⟩
  · refine takes_stringLiteral.mono ?_
    rintro piece rest ⟨body, hPiece⟩
    exact ⟨_, body, rfl, trivial, hPiece⟩
  · and_intros <;> exact fixed_fits (List.cons_ne_nil _ _) rfl (by decide)

theorem first?_fits {text : List Char} {n : Nat} {role : Role}
    (h : first? table text = some (n, role)) :
    ∃ piece rest, text = piece ++ rest ∧ piece.length = n ∧ role.Fits piece rest := by
  obtain ⟨pattern, hMem, hPattern⟩ := List.exists_of_findSome?_eq_some h
  obtain ⟨m, hShape, hRole⟩ := Option.map_eq_some_iff.mp hPattern
  cases hRole
  exact table_fits pattern hMem hShape

theorem fits_of_first? {piece rest : List Char} {role : Role}
    (h : first? table (piece ++ rest) = some (piece.length, role)) : role.Fits piece rest := by
  obtain ⟨piece', rest', hText, hLength, hFits⟩ := first?_fits h
  obtain ⟨rfl, rfl⟩ := List.append_inj hText hLength.symm
  exact hFits

end Pattern

end Jingle.Token

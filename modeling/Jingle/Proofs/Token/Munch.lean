import Jingle.Proofs.Token.Pattern
import Jingle.Proofs.Token.Shape

/-!
# Longest beginnings

The shapes of the language take what they can get. Each of them stands for a form that texts can
have, and takes the longest beginning of a text that has this form. So what a shape takes depends on
no more of a text than on which of its beginnings have the form.

* `Shape.Munches shape Form` says that a shape takes the longest beginning of the form, and
  `Shape.Munches.congr` draws the conclusion.
* `Shape.Exact shape Form` says more: what has the form is taken as it is, whatever follows it.
* `Pattern.table_munches` gives every pattern of the table its form.
-/

namespace Jingle.Token

open Text

/-! ## Forms of shapes -/

/-- The shape takes the longest beginning of a text that has the form. -/
structure Shape.Munches (shape : Shape) (Form : List Char → Prop) : Prop where
  takes : shape.Takes fun piece _ => Form piece
  reaches : ∀ ⦃piece : List Char⦄ (rest : List Char), Form piece →
    ∃ n, piece.length ≤ n ∧ shape (piece ++ rest) = some n

/-- The shape takes a beginning that has the form, and no beginning that has the form can be
continued to another one. -/
structure Shape.Exact (shape : Shape) (Form : List Char → Prop) : Prop where
  takes : shape.Takes fun piece _ => Form piece
  eq_some : ∀ ⦃piece : List Char⦄ (rest : List Char), Form piece →
    shape (piece ++ rest) = some piece.length

/-- A text of one form and after it a text of another. -/
def Joined (First Second : List Char → Prop) (text : List Char) : Prop :=
  ∃ front back, text = front ++ back ∧ First front ∧ Second back

/-- A text of characters of a class. -/
def AllOf (p : Char → Bool) (text : List Char) : Prop :=
  ∀ c ∈ text, p c = true

namespace Shape

variable {shape first second : Shape} {Form Other : List Char → Prop}

theorem andThen_append {front text : List Char} (h : first (front ++ text) = some front.length) :
    first.andThen second (front ++ text) = (second text).map (front.length + ·) := by
  rw [andThen_of_some h, List.drop_left]

theorem orElse_of_none {text : List Char} (h : first text = none) :
    first.orElse second text = second text := by
  simp [orElse, h]

theorem orElse_of_some {text : List Char} {n : Nat} (h : first text = some n) :
    first.orElse second text = some n := by
  simp [orElse, h]

theorem optional_of_some {text : List Char} {n : Nat} (h : shape text = some n) :
    shape.optional text = some n :=
  orElse_of_some h

theorem exists_optional (shape : Shape) (text : List Char) : ∃ n, shape.optional text = some n := by
  cases h : shape text with
  | none => exact ⟨0, orElse_of_none h⟩
  | some n => exact ⟨n, orElse_of_some h⟩

namespace Munches

/-- A text with all beginnings of the form that another text has gives at least as much. -/
theorem exists_of_imp (h : shape.Munches Form) {text other : List Char}
    (hImp : ∀ piece, Form piece → piece <+: text → piece <+: other) {n : Nat}
    (hText : shape text = some n) : ∃ m, n ≤ m ∧ shape other = some m := by
  obtain ⟨piece, rest, rfl, rfl, hForm⟩ := h.takes hText
  obtain ⟨more, rfl⟩ := hImp piece hForm (List.prefix_append piece rest)
  exact h.reaches more hForm

/-- What a shape takes depends only on the beginnings of the form. -/
theorem congr (h : shape.Munches Form) {text other : List Char}
    (hSame : ∀ piece, Form piece → (piece <+: text ↔ piece <+: other)) :
    shape text = shape other := by
  have hThere {n : Nat} := h.exists_of_imp (n := n) fun piece hForm => (hSame piece hForm).mp
  have hBack {n : Nat} := h.exists_of_imp (n := n) fun piece hForm => (hSame piece hForm).mpr
  cases hText : shape text with
  | none =>
    cases hOther : shape other with
    | none => rfl
    | some m =>
      obtain ⟨n, -, hSome⟩ := hBack hOther
      cases hText.symm.trans hSome
  | some n =>
    obtain ⟨m, hLe, hOther⟩ := hThere hText
    obtain ⟨n', hGe, hSome⟩ := hBack hOther
    cases hText.symm.trans hSome
    rw [hOther, Nat.le_antisymm hLe hGe]

/-- No beginning of the form is longer than what is taken. -/
theorem length_le (h : shape.Munches Form) {text piece : List Char} {n : Nat}
    (hText : shape text = some n) (hForm : Form piece) (hPiece : piece <+: text) :
    piece.length ≤ n := by
  obtain ⟨rest, rfl⟩ := hPiece
  obtain ⟨m, hLe, hSome⟩ := h.reaches rest hForm
  cases hText.symm.trans hSome
  exact hLe

theorem mono (h : shape.Munches Form) (hSame : ∀ piece, Form piece ↔ Other piece) :
    shape.Munches Other :=
  ⟨h.takes.mono fun piece _ => (hSame piece).mp, fun piece rest hOther =>
    h.reaches rest ((hSame piece).mpr hOther)⟩

end Munches

namespace Exact

theorem munches (h : shape.Exact Form) : shape.Munches Form :=
  ⟨h.takes, fun piece rest hForm => ⟨piece.length, Nat.le_refl _, h.eq_some rest hForm⟩⟩

/-- What has been taken stays taken if more text follows. -/
theorem append (h : shape.Exact Form) {text : List Char} {n : Nat} (hText : shape text = some n)
    (more : List Char) : shape (text ++ more) = some n := by
  obtain ⟨piece, rest, rfl, rfl, hForm⟩ := h.takes hText
  rw [List.append_assoc]
  exact h.eq_some _ hForm

theorem andThen_munches (h : first.Exact Form) (h' : second.Munches Other) :
    (first.andThen second).Munches (Joined Form Other) := by
  refine ⟨(h.takes.andThen h'.takes).mono fun piece rest hPiece => hPiece, ?_⟩
  rintro piece rest ⟨front, back, rfl, hFront, hBack⟩
  obtain ⟨n, hLe, hSecond⟩ := h'.reaches rest hBack
  refine ⟨front.length + n, by simpa using hLe, ?_⟩
  rw [List.append_assoc, andThen_append (h.eq_some _ hFront), hSecond]
  rfl

theorem andThen (h : first.Exact Form) (h' : second.Exact Other) :
    (first.andThen second).Exact (Joined Form Other) := by
  refine ⟨(h.takes.andThen h'.takes).mono fun piece rest hPiece => hPiece, ?_⟩
  rintro piece rest ⟨front, back, rfl, hFront, hBack⟩
  rw [List.append_assoc, andThen_append (h.eq_some _ hFront), h'.eq_some rest hBack,
    List.length_append]
  rfl

end Exact

theorem exact_one (p : Char → Bool) : (one p).Exact fun piece => ∃ c, piece = [c] ∧ p c = true := by
  refine ⟨takes_one p, ?_⟩
  rintro piece rest ⟨c, rfl, hc⟩
  simp [one, hc]

theorem exact_exactly (word : List Char) : (exactly word).Exact (· = word) := by
  refine ⟨takes_exactly word, ?_⟩
  rintro piece rest rfl
  simp [exactly]

theorem munches_many (p : Char → Bool) : (many p).Munches (AllOf p) := by
  refine ⟨(takes_many p).mono fun piece rest hPiece => hPiece.1, ?_⟩
  intro piece rest hPiece
  refine ⟨_, ?_, rfl⟩
  rw [List.takeWhile_append_of_pos hPiece, List.length_append]
  exact Nat.le_add_right _ _

theorem munches_run (p : Char → Bool) :
    (run p).Munches fun piece => piece ≠ [] ∧ AllOf p piece := by
  refine ((exact_one p).andThen_munches (munches_many p)).mono fun piece => ?_
  constructor
  · rintro ⟨_, back, rfl, ⟨c, rfl, hc⟩, hBack⟩
    exact ⟨List.cons_ne_nil c back, List.forall_mem_cons.mpr ⟨hc, hBack⟩⟩
  · rintro ⟨hNe, hAll⟩
    obtain ⟨c, back, rfl⟩ := List.exists_cons_of_ne_nil hNe
    obtain ⟨hc, hBack⟩ := List.forall_mem_cons.mp hAll
    exact ⟨[c], back, rfl, ⟨c, rfl, hc⟩, hBack⟩

theorem run_of_takeWhile_ne_nil {p : Char → Bool} {text : List Char} (h : text.takeWhile p ≠ []) :
    run p text = some (text.takeWhile p).length := by
  cases text with
  | nil => exact absurd rfl h
  | cons c text =>
    cases hc : p c with
    | false => exact absurd (List.takeWhile_cons_of_neg (by simp [hc])) h
    | true => rw [run_of_true hc, List.takeWhile_cons_of_pos hc, List.length_cons, Nat.add_comm]

/-- What is optional after a shape does not keep it from matching. -/
theorem exists_andThen_optional {text : List Char} {n : Nat} (h : first text = some n) :
    ∃ m, n ≤ m ∧ first.andThen second.optional text = some m := by
  obtain ⟨k, hSecond⟩ := exists_optional second (text.drop n)
  refine ⟨n + k, Nat.le_add_right n k, ?_⟩
  rw [andThen_of_some h, hSecond]
  rfl

/-- Of two shapes the first has to give as much as the second if it matches. -/
theorem exists_orElse {text : List Char} {least : Nat}
    (hFirst : ∀ n, first text = some n → least ≤ n)
    (hSecond : ∃ n, least ≤ n ∧ second text = some n) :
    ∃ n, least ≤ n ∧ first.orElse second text = some n := by
  cases hText : first text with
  | none =>
    rw [orElse_of_none hText]
    exact hSecond
  | some n => exact ⟨n, hFirst n hText, orElse_of_some hText⟩

end Shape

open Shape

/-! ## Numbers -/

theorem munches_exponent : exponent.Munches ExponentForm := by
  refine ⟨takes_exponent, ?_⟩
  rintro _ rest ⟨hLetter, hSign, hNe, hDigits⟩
  rename_i letter sign digits
  obtain ⟨n, hLe, hRun⟩ := (munches_run isDigit).reaches rest ⟨hNe, hDigits⟩
  have hLetter' : one (fun c => decide (c = 'e' ∨ c = 'E'))
      ([letter] ++ (sign ++ (digits ++ rest))) = some 1 := if_pos (decide_eq_true hLetter)
  have hSign' : (one fun c => decide (c = '+' ∨ c = '-')).optional (sign ++ (digits ++ rest)) =
      some sign.length := by
    rcases hSign with rfl | rfl | rfl
    · obtain ⟨d, digits, rfl⟩ := List.exists_cons_of_ne_nil hNe
      have hDigit : isDigit d = true := hDigits d List.mem_cons_self
      apply orElse_of_none
      apply one_of_false
      apply decide_eq_false
      rintro (rfl | rfl) <;> cases hDigit
    · rfl
    · rfl
  have hText : letter :: (sign ++ digits) ++ rest = [letter] ++ (sign ++ (digits ++ rest)) := by
    simp
  refine ⟨1 + (sign.length + n), ?_, ?_⟩
  · simp only [List.length_cons, List.length_append]
    omega
  · rw [exponent, hText, andThen_append hLetter', andThen_append hSign', hRun]
    rfl

/-- The part of a float up to its exponent, with a point. -/
def pointed : Shape :=
  ((run isDigit).andThen ((one (· = '.')).andThen (many isDigit))).orElse
    ((one (· = '.')).andThen (run isDigit))

theorem float_eq :
    float = (pointed.andThen exponent.optional).orElse ((run isDigit).andThen exponent) :=
  rfl

theorem pointed_eq {whole : List Char} (hWhole : AllOf isDigit whole) (text : List Char)
    (hNe : whole ++ text.takeWhile isDigit ≠ []) :
    pointed (whole ++ '.' :: text) =
      some (whole.length + (1 + (text.takeWhile isDigit).length)) := by
  have hPoint (rest : List Char) : one (fun c => decide (c = '.')) ('.' :: rest) = some 1 := rfl
  by_cases hEmpty : whole = []
  · subst hEmpty
    have hNone : run isDigit ('.' :: text) = none := run_of_false rfl
    have hRun := run_of_takeWhile_ne_nil hNe
    simp [pointed, orElse, andThen, hNone, hPoint, hRun]
  · have hRun : run isDigit (whole ++ '.' :: text) = some whole.length := by
      refine run_append hWhole hEmpty ?_
      rintro c ⟨⟩
      rfl
    simp [pointed, orElse, andThen, hRun, hPoint, many]

theorem exists_pointed {digits : List Char} (hForm : PointForm digits) (rest : List Char) :
    ∃ n, digits.length ≤ n ∧ pointed (digits ++ rest) = some n := by
  obtain ⟨hWhole, hPlaces, hNe⟩ := hForm
  rename_i whole places
  have hMore : (places ++ rest).takeWhile isDigit = places ++ rest.takeWhile isDigit :=
    List.takeWhile_append_of_pos hPlaces
  have hSome := pointed_eq hWhole (places ++ rest) (by
    rw [hMore, ← List.append_assoc]
    exact List.append_ne_nil_of_left_ne_nil hNe _)
  refine ⟨_, ?_, by rw [List.append_assoc]; exact hSome⟩
  rw [hMore]
  simp only [List.length_append, List.length_cons]
  omega

/-- Digits around a point are taken as they are before anything but a digit. -/
theorem pointed_append {digits : List Char} (hForm : PointForm digits) {rest : List Char}
    (hRest : ∀ c ∈ rest.head?, isDigit c = false) :
    pointed (digits ++ rest) = some digits.length := by
  obtain ⟨hWhole, hPlaces, hNe⟩ := hForm
  rename_i whole places
  have hMore := takeWhile_append_of_head? hPlaces hRest
  have hSome := pointed_eq hWhole (places ++ rest) (by rwa [hMore])
  rw [List.append_assoc, List.cons_append, hSome, hMore, List.length_append, List.length_cons,
    Nat.add_comm 1]

theorem pointed_of_digits {digits : List Char} (hDigits : AllOf isDigit digits) (hNe : digits ≠ [])
    {rest : List Char} (hRest : ∀ c ∈ rest.head?, isDigit c = false ∧ c ≠ '.') :
    pointed (digits ++ rest) = none := by
  have hRun : run isDigit (digits ++ rest) = some digits.length :=
    run_append hDigits hNe fun c hc => (hRest c hc).1
  have hPoint : one (fun c => decide (c = '.')) rest = none :=
    one_of_head? fun c hc => decide_eq_false (hRest c hc).2
  have hFirst : one (fun c => decide (c = '.')) (digits ++ rest) = none := by
    obtain ⟨c, digits, rfl⟩ := List.exists_cons_of_ne_nil hNe
    apply one_of_false
    apply decide_eq_false
    rintro rfl
    cases hDigits '.' List.mem_cons_self
  simp [pointed, orElse, andThen, hRun, hPoint, hFirst]

theorem ExponentForm.head {tail : List Char} (h : ExponentForm tail) (rest : List Char) :
    ∀ c ∈ (tail ++ rest).head?, isDigit c = false ∧ c ≠ '.' := by
  obtain ⟨rfl | rfl, -, -, -⟩ := h
  · rintro c ⟨⟩
    decide
  · rintro c ⟨⟩
    decide

theorem munches_float : float.Munches FloatForm := by
  refine ⟨takes_float, ?_⟩
  intro piece rest hForm
  rw [float_eq]
  cases hForm with
  | @pointed digits tail hDigits hTail =>
    rw [List.append_assoc]
    rcases hTail with rfl | hTail
    · obtain ⟨n, hLe, hPointed⟩ := exists_pointed hDigits rest
      obtain ⟨m, hMore, hSome⟩ : ∃ m, n ≤ m ∧
          pointed.andThen exponent.optional (digits ++ rest) = some m :=
        exists_andThen_optional hPointed
      refine ⟨m, ?_, orElse_of_some hSome⟩
      rw [List.append_nil]
      exact Nat.le_trans hLe hMore
    · obtain ⟨n, hLe, hExponent⟩ := munches_exponent.reaches rest hTail
      have hPointed := pointed_append hDigits fun c hc => (hTail.head rest c hc).1
      refine ⟨digits.length + n, by simpa using hLe, orElse_of_some ?_⟩
      rw [andThen_append hPointed, optional_of_some hExponent]
      rfl
  | @whole digits tail hNe hDigits hTail =>
    obtain ⟨n, hLe, hExponent⟩ := munches_exponent.reaches rest hTail
    have hNone : pointed (digits ++ (tail ++ rest)) = none :=
      pointed_of_digits hDigits hNe (hTail.head rest)
    have hRun : run isDigit (digits ++ (tail ++ rest)) = some digits.length :=
      run_append hDigits hNe fun c hc => (hTail.head rest c hc).1
    refine ⟨digits.length + n, by simpa using hLe, ?_⟩
    rw [List.append_assoc, orElse_of_none (andThen_of_none hNone), andThen_append hRun, hExponent]
    rfl

theorem inRadix_zero (lower upper letter : Char) (radix : Nat) (text : List Char) :
    inRadix lower upper radix ('0' :: letter :: text) =
      if letter = lower ∨ letter = upper then (Shape.run (isDigitOf radix) text).map (2 + ·)
      else none := by
  have hZero : Shape.one (fun c => decide (c = '0')) ('0' :: letter :: text) = some 1 := rfl
  rw [inRadix, Shape.andThen_of_some hZero, List.drop_one, List.tail_cons]
  split
  · next hLetter =>
    have hOne : Shape.one (fun c => decide (c = lower ∨ c = upper)) (letter :: text) = some 1 :=
      if_pos (decide_eq_true hLetter)
    rw [Shape.andThen_of_some hOne, List.drop_one, List.tail_cons, Option.map_map]
    congr 1
    funext n
    exact (Nat.add_assoc 1 1 n).symm
  · next hLetter =>
    rw [Shape.andThen_of_none (Shape.one_of_false (decide_eq_false hLetter))]
    rfl

theorem integer_marked {letter : Char} {radix : Nat} (hLetter : (letter, radix) ∈ radixLetters)
    {text : List Char} {n : Nat} (hRun : Shape.run (isDigitOf radix) text = some n) :
    integer ('0' :: letter :: text) = some (2 + n) := by
  simp only [radixLetters, List.mem_cons, List.not_mem_nil, or_false, Prod.mk.injEq] at hLetter
  rcases hLetter with ⟨rfl, rfl⟩ | ⟨rfl, rfl⟩ | ⟨rfl, rfl⟩ | ⟨rfl, rfl⟩ | ⟨rfl, rfl⟩ | ⟨rfl, rfl⟩
  all_goals simp [integer, Shape.orElse, inRadix_zero, hRun]

theorem isDigit_of_mem_radixLetters {letter : Char} {radix : Nat}
    (h : (letter, radix) ∈ radixLetters) : isDigit letter = false := by
  have hAll : ∀ mark ∈ radixLetters, isDigit mark.1 = false := by decide
  exact hAll _ h

/-- After the mark of a radix decimal digits do not go on. -/
theorem length_le_of_inRadix {lower upper : Char} {radix : Nat}
    (hLower : (lower, radix) ∈ radixLetters) (hUpper : (upper, radix) ∈ radixLetters)
    {digits rest : List Char} (hDigits : AllOf isDigit digits) (n : Nat)
    (h : inRadix lower upper radix (digits ++ rest) = some n) : digits.length ≤ n := by
  obtain ⟨piece, after, hText, rfl, letter, others, rfl, hLetter, -, -⟩ :=
    takes_inRadix lower upper radix h
  have hLetter' : isDigit letter = false := by
    rcases hLetter with rfl | rfl
    · exact isDigit_of_mem_radixLetters hLower
    · exact isDigit_of_mem_radixLetters hUpper
  rcases digits with _ | ⟨c, _ | ⟨d, digits⟩⟩
  · exact Nat.zero_le _
  · simp
  · obtain ⟨-, hTail⟩ := List.cons.inj hText
    obtain ⟨rfl, -⟩ := List.cons.inj hTail
    cases hLetter'.symm.trans (hDigits d (by simp))

theorem munches_integer : integer.Munches IntegerForm := by
  refine ⟨takes_integer, ?_⟩
  intro piece rest hForm
  cases hForm with
  | @marked letter radix digits hLetter hNe hDigits =>
    obtain ⟨n, hLe, hRun⟩ := (munches_run (isDigitOf radix)).reaches rest ⟨hNe, hDigits⟩
    refine ⟨2 + n, ?_, integer_marked hLetter hRun⟩
    simp only [List.length_cons]
    omega
  | decimal hNe hDigits =>
    have hDecimal := (munches_run isDigit).reaches rest ⟨hNe, hDigits⟩
    exact exists_orElse (length_le_of_inRadix (by decide) (by decide) hDigits)
      (exists_orElse (length_le_of_inRadix (by decide) (by decide) hDigits)
        (exists_orElse (length_le_of_inRadix (by decide) (by decide) hDigits) hDecimal))

/-! ## Comments -/

/-- The rest of a comment after its beginning: a star and a slash end it, and none before. -/
def CommentRest (text : List Char) : Prop :=
  ∃ body, text = body ++ ['*', '/'] ∧ ¬ ['*', '/'] <:+: body ++ ['*']

theorem exact_commentRest : commentRest.Exact CommentRest := by
  refine ⟨takes_commentRest, ?_⟩
  rintro piece rest ⟨body, rfl, hBody⟩
  induction body with
  | nil => rfl
  | cons c body ih =>
    have hOpen : ∀ text, c = '*' → body ++ ['*', '/'] ++ rest = '/' :: text → False := by
      rintro text rfl hText
      apply hBody
      cases body with
      | nil => cases hText
      | cons d body =>
        obtain ⟨rfl, -⟩ := List.cons.inj hText
        exact ⟨[], body ++ ['*'], rfl⟩
    have hRest : ¬ ['*', '/'] <:+: body ++ ['*'] := fun h => hBody (List.infix_cons h)
    rw [List.cons_append, List.cons_append, commentRest.eq_3 _ _ hOpen, ih hRest]
    rfl

theorem exact_blockComment : blockComment.Exact (Joined (· = ['/', '*']) CommentRest) :=
  (exact_exactly _).andThen exact_commentRest

theorem munches_lineComment :
    lineComment.Munches (Joined (· = ['/', '/']) (AllOf fun c => decide (c ≠ '\n'))) :=
  (exact_exactly _).andThen_munches (munches_many _)

/-! ## Literals in quotes -/

/-- Before a quote the body of a character literal is taken as it is. After a backslash and `x` the
quote is no digit of a code. -/
theorem charBody_append {body : List Char} (h : CharBody body) (rest : List Char) :
    charBody (body ++ '\'' :: rest) = some body.length := by
  have hQuote : isDigitOf 16 '\'' = false := rfl
  cases h with
  | code hHigh hLow => simp [charBody, orElse, Shape.andThen, exactly, one, hHigh, hLow]
  | @escape c hFeed =>
    by_cases hCode : c = 'x'
    · simp [charBody, orElse, Shape.andThen, exactly, one, hCode, hQuote]
    · simp [charBody, orElse, Shape.andThen, exactly, one, hFeed, Ne.symm hCode]
  | plain hNe hBackslash hFeed =>
    simp [charBody, orElse, Shape.andThen, exactly, one, hNe, hBackslash, hFeed,
      Ne.symm hBackslash]

theorem exact_charLiteral :
    charLiteral.Exact fun piece => ∃ body, CharBody body ∧ piece = '\'' :: (body ++ ['\'']) := by
  refine ⟨takes_charLiteral, ?_⟩
  rintro piece rest ⟨body, hBody, rfl⟩
  have hOpen (text : List Char) : one (fun c => decide (c = '\'')) (['\''] ++ text) = some 1 := rfl
  have hText : '\'' :: (body ++ ['\'']) ++ rest = ['\''] ++ (body ++ '\'' :: rest) := by simp
  rw [charLiteral, hText, andThen_append (hOpen _), andThen_append (charBody_append hBody rest)]
  simp [one, Nat.add_comm]

/-- The body of a string literal. A backslash takes the next character with it, which is not a line
feed. -/
inductive StringBody : List Char → Prop where
  | nil : StringBody []
  | escape {c : Char} {body : List Char} : c ≠ '\n' → StringBody body →
      StringBody ('\\' :: c :: body)
  | plain {c : Char} {body : List Char} : c ≠ '"' → c ≠ '\\' → StringBody body →
      StringBody (c :: body)

theorem exact_stringRest :
    stringRest.Exact (Joined StringBody (· = ['"'])) := by
  constructor
  · intro text n hText
    induction text using stringRest.induct generalizing n with
    | case1 => cases hText
    | case2 text =>
      cases hText
      exact ⟨['"'], text, rfl, rfl, [], ['"'], rfl, .nil, rfl⟩
    | case3 => cases hText
    | case4 => cases hText
    | case5 c text hFeed ih =>
      rw [stringRest, if_neg hFeed] at hText
      obtain ⟨m, hRest, rfl⟩ := Option.map_eq_some_iff.mp hText
      obtain ⟨_, rest, rfl, rfl, body, _, rfl, hBody, rfl⟩ := ih hRest
      exact ⟨'\\' :: c :: (body ++ ['"']), rest, rfl, rfl, '\\' :: c :: body, ['"'], rfl,
        .escape hFeed hBody, rfl⟩
    | case6 c text hQuote hLast hEscape ih =>
      rw [stringRest.eq_5 _ _ hQuote hLast hEscape] at hText
      obtain ⟨m, hRest, rfl⟩ := Option.map_eq_some_iff.mp hText
      obtain ⟨_, rest, rfl, rfl, body, _, rfl, hBody, rfl⟩ := ih hRest
      have hBackslash : c ≠ '\\' := by
        rintro rfl
        obtain ⟨d, text, hCons⟩ := List.exists_cons_of_ne_nil
          (List.append_ne_nil_of_left_ne_nil (List.concat_ne_nil '"' body) rest)
        exact hEscape d text rfl hCons
      exact ⟨c :: (body ++ ['"']), rest, rfl, rfl, c :: body, ['"'], rfl,
        .plain hQuote hBackslash hBody, rfl⟩
  · rintro piece rest ⟨body, _, rfl, hBody, rfl⟩
    induction hBody with
    | nil => rfl
    | escape hFeed _ ih =>
      rw [List.cons_append, List.cons_append, List.cons_append, List.cons_append, stringRest,
        if_neg hFeed, ih]
      rfl
    | plain hQuote hBackslash _ ih =>
      rw [List.cons_append, List.cons_append, stringRest.eq_5 _ _ hQuote (by simp [hBackslash])
        (by simp [hBackslash]), ih]
      rfl

theorem exact_stringLiteral : stringLiteral.Exact
    (Joined (fun piece => ∃ c, piece = [c] ∧ decide (c = '"') = true)
      (Joined StringBody (· = ['"']))) :=
  (exact_one _).andThen exact_stringRest

/-! ## The table -/

theorem munches_word : word.Munches
    (Joined (fun piece => ∃ c, piece = [c] ∧ isWordStart c = true) (AllOf isWordPart)) :=
  (exact_one _).andThen_munches (munches_many _)

theorem Pattern.table_munches : ∀ pattern ∈ table, ∃ Form, pattern.shape.Munches Form := by
  simp only [table, List.forall_mem_cons, List.not_mem_nil, false_implies, implies_true, and_true]
  refine ⟨⟨_, munches_run _⟩, ⟨_, exact_blockComment.munches⟩, ⟨_, munches_lineComment⟩,
    ⟨_, munches_float⟩, ⟨_, munches_integer⟩, ⟨_, exact_charLiteral.munches⟩,
    ⟨_, exact_stringLiteral.munches⟩, ⟨_, munches_word⟩, ?_⟩
  and_intros <;> exact ⟨_, (exact_exactly _).munches⟩

end Jingle.Token

import Jingle.Proofs.Token.Lossless
import Jingle.Proofs.Token.Munch

/-!
# The first match is the longest

The patterns stand in the table in such an order that of two patterns that match a text the
earlier one takes more. So the order is one way to take the longest match, and every other way to
take it cuts a source into the same tokens.

* `Shape.Outruns` compares two shapes, and `Pattern.table_outruns` says that the patterns of the
  table are sorted by it.
* `Munched patterns mark text result` is the cutting of a text by longest matches, in which the
  order of the patterns plays no part.
* `tokenize_munches` says that tokens are cut so.
-/

namespace Jingle.Text

/-! ## Classes of characters -/

theorem exists_run_of_inRuns {runs : List (Nat × Nat)} {n : Nat} (h : inRuns runs n = true) :
    ∃ run ∈ runs, run.1 ≤ n ∧ n ≤ run.2 := by
  induction runs with
  | nil => cases h
  | cons run runs ih =>
    rw [inRuns] at h
    split at h
    · next hLast => exact ⟨run, List.mem_cons_self, of_decide_eq_true h, hLast⟩
    · obtain ⟨other, hMem, hIn⟩ := ih h
      exact ⟨other, List.mem_cons_of_mem _ hMem, hIn⟩

/-- No digit is blank, since no run of digits meets a run of blanks. -/
theorem isBlank_of_isDigit {c : Char} (h : isDigit c = true) : isBlank c = false := by
  have hApart : ∀ digits ∈ digitRuns, ∀ blanks ∈ blankRuns,
      digits.2 < blanks.1 ∨ blanks.2 < digits.1 := by decide
  cases hBlank : isBlank c with
  | false => rfl
  | true =>
    obtain ⟨digits, hDigits, hLow, hHigh⟩ := exists_run_of_inRuns h
    obtain ⟨blanks, hBlanks, hLow', hHigh'⟩ := exists_run_of_inRuns hBlank
    have hCases := hApart digits hDigits blanks hBlanks
    omega

end Jingle.Text

namespace Jingle.Token

open Text Shape

/-- One character for all characters that begin the same patterns. -/
def lead (c : Char) : Char :=
  if isBlank c then ' ' else if isDigit c || c = '.' then '0' else if isWordStart c then 'a' else c

theorem lead_of_isBlank {c : Char} (h : isBlank c = true) : lead c = ' ' :=
  if_pos h

theorem lead_of_isDigit {c : Char} (h : isDigit c = true) : lead c = '0' := by
  simp [lead, isBlank_of_isDigit h, h]

theorem lead_of_isWordStart {c : Char} (h : isWordStart c = true) : lead c = 'a' := by
  obtain ⟨hLow, hHigh⟩ := toNat_of_isWordStart h
  have hBlank : isBlank c = false := isBlank_eq_false (by omega) (by omega)
  have hDigit : isDigit c = false := by
    rw [isDigit_eq (by omega)]
    exact decide_eq_false (by omega)
  have hPoint : c ≠ '.' := by
    rintro rfl
    cases h
  simp [lead, hBlank, hDigit, hPoint, h]

/-- All texts that the shape matches begin with a character of the class of `d`. -/
def Shape.LeadsWith (shape : Shape) (d : Char) : Prop :=
  ∀ ⦃text : List Char⦄ ⦃n : Nat⦄, shape text = some n → text.head?.map lead = some d

namespace Shape.LeadsWith

variable {first second : Shape} {d : Char}

theorem one {p : Char → Bool} (h : ∀ c, p c = true → lead c = d) : (one p).LeadsWith d := by
  intro text n hText
  obtain ⟨_, rest, rfl, -, c, rfl, hc⟩ := takes_one p hText
  exact congrArg some (h c hc)

theorem char (c : Char) : (Shape.one (· = c)).LeadsWith (lead c) :=
  one fun _ hc => congrArg lead (of_decide_eq_true hc)

theorem exactly (c : Char) (word : List Char) : (exactly (c :: word)).LeadsWith (lead c) := by
  intro text n hText
  obtain ⟨_, rest, rfl, -, rfl⟩ := takes_exactly _ hText
  rfl

theorem andThen (h : first.LeadsWith d) (second : Shape) : (first.andThen second).LeadsWith d := by
  intro text n hText
  obtain ⟨k, hFirst, -⟩ := Option.bind_eq_some_iff.mp hText
  exact h hFirst

theorem orElse (h : first.LeadsWith d) (h' : second.LeadsWith d) :
    (first.orElse second).LeadsWith d := by
  intro text n hText
  rcases Option.or_eq_some_iff.mp hText with hFirst | ⟨-, hSecond⟩
  · exact h hFirst
  · exact h' hSecond

theorem float : float.LeadsWith '0' := by
  have hDigits : (run isDigit).LeadsWith '0' := (one fun _ => lead_of_isDigit).andThen _
  have hPoint : (Shape.one (· = '.')).LeadsWith '0' := char '.'
  exact (((hDigits.andThen _).orElse (hPoint.andThen _)).andThen _).orElse (hDigits.andThen _)

theorem integer : integer.LeadsWith '0' := by
  have hMarked (lower upper : Char) (radix : Nat) : (inRadix lower upper radix).LeadsWith '0' :=
    (char '0').andThen _
  exact (hMarked _ _ _).orElse ((hMarked _ _ _).orElse ((hMarked _ _ _).orElse
    ((one fun _ => lead_of_isDigit).andThen _)))

end Shape.LeadsWith

/-! ## Shapes that take more than others -/

/-- Where both shapes match, the first one takes more. -/
def Shape.Outruns (first second : Shape) : Prop :=
  ∀ ⦃text : List Char⦄ ⦃n m : Nat⦄, first text = some n → second text = some m → m < n

theorem Shape.Outruns.andThen {first other : Shape} (h : first.Outruns other) (second : Shape) :
    (first.andThen second).Outruns other := by
  intro text n m hText hOther
  obtain ⟨k, hFirst, hRest⟩ := Option.bind_eq_some_iff.mp hText
  obtain ⟨l, -, rfl⟩ := Option.map_eq_some_iff.mp hRest
  have hLess := h hFirst hOther
  omega

theorem Shape.isPrefix_of_exactly {word text : List Char} {n : Nat}
    (h : exactly word text = some n) : word <+: text ∧ n = word.length := by
  obtain ⟨_, rest, rfl, rfl, rfl⟩ := takes_exactly word h
  exact ⟨List.prefix_append _ rest, rfl⟩

theorem Shape.outruns_exactly {word other : List Char} (h : ¬ word <+: other) :
    (exactly word).Outruns (exactly other) := by
  intro text n m hText hOther
  obtain ⟨hWord, rfl⟩ := isPrefix_of_exactly hText
  obtain ⟨hShorter, rfl⟩ := isPrefix_of_exactly hOther
  rcases Nat.lt_or_ge other.length word.length with hLess | hLe
  · exact hLess
  · exact absurd (List.prefix_of_prefix_length_le hWord hShorter hLe) h

/-- No text begins with two words of which neither begins with the other. -/
theorem Shape.outruns_of_words {word other : List Char} (h : ¬ word <+: other)
    (h' : ¬ other <+: word) (first second : Shape) :
    ((exactly word).andThen first).Outruns ((exactly other).andThen second) := by
  intro text n m hText hOther
  obtain ⟨_, hFirst, -⟩ := Option.bind_eq_some_iff.mp hText
  obtain ⟨_, hSecond, -⟩ := Option.bind_eq_some_iff.mp hOther
  rcases List.prefix_or_prefix_of_prefix (isPrefix_of_exactly hFirst).1
    (isPrefix_of_exactly hSecond).1 with hWord | hWord
  · exact absurd hWord h
  · exact absurd hWord h'

/-- The digits of a float before its point or its exponent. -/
theorem FloatForm.exists_whole {text : List Char} (h : FloatForm text) :
    ∃ whole mark rest, text = whole ++ mark :: rest ∧ AllOf isDigit whole ∧
      mark ∈ ['.', 'e', 'E'] := by
  cases h with
  | pointed hDigits _ =>
    obtain ⟨hWhole, -, -⟩ := hDigits
    exact ⟨_, '.', _, List.append_assoc _ _ _, hWhole, List.mem_cons_self⟩
  | whole _ hDigits hTail =>
    obtain ⟨hLetter, -, -, -⟩ := hTail
    refine ⟨_, _, _, rfl, hDigits, ?_⟩
    simpa using Or.inr hLetter

/-- An integer does not reach over the point or the exponent of a float. -/
theorem IntegerForm.not_mark {whole rest : List Char} {mark : Char} (hWhole : AllOf isDigit whole)
    (hMark : mark ∈ ['.', 'e', 'E']) : ¬ IntegerForm (whole ++ mark :: rest) := by
  obtain ⟨hDigit, hZero, hLetters⟩ :
      isDigit mark = false ∧ mark ≠ '0' ∧ ∀ letter ∈ radixLetters, mark ≠ letter.1 := by
    simp only [List.mem_cons, List.not_mem_nil, or_false] at hMark
    rcases hMark with rfl | rfl | rfl <;> exact ⟨rfl, by decide, by decide⟩
  generalize hText : whole ++ mark :: rest = text
  intro hForm
  cases hForm with
  | decimal _ hDigits =>
    have hMem : mark ∈ text := by simp [← hText]
    cases hDigit.symm.trans (hDigits mark hMem)
  | marked hLetter _ _ =>
    rcases whole with _ | ⟨c, _ | ⟨d, whole⟩⟩
    · exact hZero (List.cons.inj hText).1
    · exact hLetters _ hLetter (List.cons.inj (List.cons.inj hText).2).1
    · obtain ⟨rfl, -⟩ := List.cons.inj (List.cons.inj hText).2
      cases (isDigit_of_mem_radixLetters hLetter).symm.trans (hWhole d (by simp))

theorem float_outruns_integer : float.Outruns integer := by
  intro text n m hFloat hInteger
  obtain ⟨_, after, rfl, rfl, hForm⟩ := takes_float hFloat
  obtain ⟨whole, mark, rest, rfl, hWhole, hMark⟩ := hForm.exists_whole
  obtain ⟨piece, after', hText, rfl, hForm'⟩ := takes_integer hInteger
  rw [List.append_assoc, List.cons_append] at hText
  have hLe : piece.length ≤ whole.length := by
    rcases Nat.lt_or_ge whole.length piece.length with hLess | hLe
    · -- Otherwise the integer goes on after the digits with the mark.
      obtain ⟨more, rfl⟩ := List.prefix_of_prefix_length_le ⟨_, rfl⟩ ⟨_, hText.symm⟩
        (Nat.le_of_lt hLess)
      rw [List.append_assoc] at hText
      have hMore := List.append_cancel_left hText
      cases more with
      | nil => simp at hLess
      | cons c more =>
        obtain ⟨rfl, -⟩ := List.cons.inj hMore
        exact absurd hForm' (IntegerForm.not_mark hWhole hMark)
    · exact hLe
  simp only [List.length_append, List.length_cons]
  omega

/-! ## The table -/

namespace Pattern

/-- The classes of characters that the patterns of the table begin with. -/
def leads : List Char :=
  [' ', '/', '/', '0', '0', '\'', '"', 'a', '\x7b', '\x7d', '(', ')', '=', '!', '!', '=', '<', '<',
   '>', '>', '|', '&', ';', ':', ',', '-', '+', '-', '/', '*', '%']

theorem table_leadsWith : ∀ entry ∈ table.zip leads, entry.1.shape.LeadsWith entry.2 := by
  simp only [table, leads, List.zip_cons_cons, List.zip_nil_left, List.forall_mem_cons,
    List.not_mem_nil, false_implies, implies_true, and_true]
  refine ⟨(LeadsWith.one fun _ => lead_of_isBlank).andThen _, (LeadsWith.exactly '/' _).andThen _,
    (LeadsWith.exactly '/' _).andThen _, .float, .integer, (LeadsWith.char '\'').andThen _,
    (LeadsWith.char '"').andThen _, (LeadsWith.one fun _ => lead_of_isWordStart).andThen _, ?_⟩
  and_intros <;> exact LeadsWith.exactly _ _

/-- Of two patterns that begin with the same class the earlier one takes more. -/
theorem table_overlaps : (table.zip leads).Pairwise fun first second =>
    first.2 = second.2 → first.1.shape.Outruns second.1.shape := by
  simp only [table, leads, List.zip_cons_cons, List.zip_nil_left, List.pairwise_cons,
    List.forall_mem_cons, List.not_mem_nil, false_implies, implies_true, and_true, Char.reduceEq,
    true_implies, List.Pairwise.nil, true_and]
  have hFixed {word other : String} {kind kind' : Kind} (h : ¬ word.toList <+: other.toList) :
      (fixed word kind).shape.Outruns (fixed other kind').shape := outruns_exactly h
  have hBlock : blockComment.Outruns lineComment := outruns_of_words (by decide) (by decide) _ _
  have hBlock' : blockComment.Outruns (fixed "/" .slash).shape :=
    (outruns_exactly (by decide)).andThen _
  have hLine : lineComment.Outruns (fixed "/" .slash).shape :=
    (outruns_exactly (by decide)).andThen _
  exact ⟨⟨hBlock, hBlock'⟩, hLine, float_outruns_integer, hFixed (by decide), hFixed (by decide),
    hFixed (by decide), hFixed (by decide), hFixed (by decide)⟩

/-- Of two patterns of the table that match a text the earlier one takes more. -/
theorem table_outruns : table.Pairwise fun first second => first.shape.Outruns second.shape := by
  have hTable : (table.zip leads).map Prod.fst = table := rfl
  rw [← hTable, List.pairwise_map]
  refine table_overlaps.imp_of_mem ?_
  intro first second hFirst hSecond hOverlap text n m hText hOther
  -- Both match the text, so its first character is of the class of both.
  have hLead := table_leadsWith first hFirst hText
  have hLead' := table_leadsWith second hSecond hOther
  exact hOverlap (Option.some.inj (hLead.symm.trans hLead')) hText hOther

theorem pos_of_mem_table {pattern : Pattern} (hMem : pattern ∈ table) {text : List Char} {n : Nat}
    (h : pattern.shape text = some n) : 0 < n ∧ n ≤ text.length := by
  obtain ⟨piece, rest, rfl, rfl, hFits⟩ := table_fits pattern hMem h
  refine ⟨List.length_pos_iff.mpr hFits.ne_nil, ?_⟩
  rw [List.length_append]
  exact Nat.le_add_right _ _

/-- If the first pattern of the table that matches a text is known, every other pattern takes
less. -/
theorem lt_of_first {before after : List Pattern} {pattern : Pattern}
    (hTable : table = before ++ pattern :: after) {text : List Char} {n : Nat}
    (hBefore : ∀ other ∈ before, other.shape text = none) (hText : pattern.shape text = some n) :
    ∀ other ∈ before ++ after, ∀ m, other.shape text = some m → m < n := by
  intro other hOther m hSome
  rcases List.mem_append.mp hOther with hEarlier | hLater
  · cases (hBefore other hEarlier).symm.trans hSome
  · have hSorted := table_outruns
    rw [hTable] at hSorted
    have hAfter := (List.pairwise_cons.mp (List.pairwise_append.mp hSorted).2.1).1
    exact hAfter other hLater hText hSome

theorem eq_or_lt_of_first {before after : List Pattern} {pattern : Pattern}
    (hTable : table = before ++ pattern :: after) {text : List Char} {n : Nat}
    (hBefore : ∀ other ∈ before, other.shape text = none) (hText : pattern.shape text = some n)
    {other : Pattern} (hMem : other ∈ table) {m : Nat} (hSome : other.shape text = some m) :
    other = pattern ∨ m < n := by
  rw [hTable, List.mem_append, List.mem_cons] at hMem
  rcases hMem with hEarlier | hHere | hLater
  · exact .inr (lt_of_first hTable hBefore hText other (List.mem_append_left _ hEarlier) m hSome)
  · exact .inl hHere
  · exact .inr (lt_of_first hTable hBefore hText other (List.mem_append_right _ hLater) m hSome)

/-- A pattern takes so much from a text, and no pattern takes more. -/
structure Longest (patterns : List Pattern) (text : List Char) (pattern : Pattern) (n : Nat) :
    Prop where
  mem : pattern ∈ patterns
  eq_some : pattern.shape text = some n
  le : ∀ other ∈ patterns, ∀ m, other.shape text = some m → m ≤ n

theorem Longest.of_perm {patterns others : List Pattern} (hPerm : patterns.Perm others)
    {text : List Char} {pattern : Pattern} {n : Nat} (h : Longest patterns text pattern n) :
    Longest others text pattern n :=
  ⟨hPerm.mem_iff.mp h.mem, h.eq_some, fun other hMem => h.le other (hPerm.mem_iff.mpr hMem)⟩

/-- The first match is the longest one, and the only one of its length. -/
theorem first?_eq_some_iff_longest {text : List Char} {n : Nat} {role : Role} :
    first? table text = some (n, role) ↔
      ∃ pattern, Longest table text pattern n ∧ pattern.role = role := by
  constructor
  · intro hFirst
    obtain ⟨before, pattern, after, hTable, hRole, hBefore, hText⟩ :=
      first?_eq_some_iff.mp hFirst
    refine ⟨pattern, ⟨by simp [hTable], hText, ?_⟩, hRole⟩
    intro other hMem m hSome
    rcases eq_or_lt_of_first hTable hBefore hText hMem hSome with rfl | hLess
    · exact Nat.le_of_eq (Option.some.inj (hSome.symm.trans hText))
    · exact Nat.le_of_lt hLess
  · rintro ⟨pattern, hLongest, rfl⟩
    cases hFirst : first? table text with
    | none =>
      have hNone := first?_eq_none_iff.mp hFirst pattern hLongest.mem
      cases hNone.symm.trans hLongest.eq_some
    | some found =>
      obtain ⟨m, role⟩ := found
      obtain ⟨before, first, after, hTable, rfl, hBefore, hText⟩ :=
        first?_eq_some_iff.mp hFirst
      have hLe : m ≤ n := hLongest.le first (by simp [hTable]) m hText
      rcases eq_or_lt_of_first hTable hBefore hText hLongest.mem hLongest.eq_some with rfl | hLess
      · rw [Option.some.inj (hText.symm.trans hLongest.eq_some)]
      · omega

end Pattern

/-! ## Cutting by longest matches -/

/-- The tokens of a text from a place on, or the fault, if at every place the longest match of a
pattern is taken. Which of the patterns stands first is of no account. -/
inductive Munched (patterns : List Pattern) :
    Mark → List Char → Except Fault (List Token) → Prop where
  | done {mark : Mark} : Munched patterns mark [] (.ok [endAt mark.offset mark.line])
  | fault {mark : Mark} {c : Char} {text : List Char} :
      (∀ pattern ∈ patterns, pattern.shape (c :: text) = none) →
      Munched patterns mark (c :: text) (.error ⟨.unrecognised (String.singleton c), mark.offset⟩)
  | piece {mark : Mark} {piece rest : List Char} {pattern : Pattern}
      {result : Except Fault (List Token)} : piece ≠ [] →
      Pattern.Longest patterns (piece ++ rest) pattern piece.length →
      Munched patterns (mark.advance piece) rest result →
      Munched patterns mark (piece ++ rest)
        (result.map ((ofPiece? mark piece pattern.role).toList ++ ·))

/-- A text is cut into tokens by longest matches, whatever the order of the patterns. -/
theorem munched_iff {patterns : List Pattern} (hPerm : patterns.Perm Pattern.table) {mark : Mark}
    {text : List Char} {result : Except Fault (List Token)} :
    Munched patterns mark text result ↔ scan 0 mark text = result := by
  constructor
  · intro h
    induction h with
    | done => rfl
    | fault hNone =>
      have hFirst := Pattern.first?_eq_none_iff.mpr fun pattern hMem =>
        hNone pattern (hPerm.mem_iff.mpr hMem)
      rw [scan, hFirst]
    | piece hPiece hLongest _ ih =>
      have hFirst := Pattern.first?_eq_some_iff_longest.mpr ⟨_, hLongest.of_perm hPerm, rfl⟩
      rw [scan_of_first? _ hPiece hFirst, ih]
  · rintro rfl
    generalize hLength : text.length = length
    induction length using Nat.strongRecOn generalizing mark text with
    | ind length ih =>
      cases hFirst : Pattern.first? Pattern.table text with
      | none =>
        have hNone := Pattern.first?_eq_none_iff.mp hFirst
        cases text with
        | nil => exact .done
        | cons c text =>
          rw [scan, hFirst]
          exact .fault fun pattern hMem => hNone pattern (hPerm.mem_iff.mp hMem)
      | some found =>
        obtain ⟨n, role⟩ := found
        obtain ⟨piece, rest, rfl, rfl, hFits⟩ := Pattern.first?_fits hFirst
        obtain ⟨pattern, hLongest, rfl⟩ := Pattern.first?_eq_some_iff_longest.mp hFirst
        have hPos := List.length_pos_iff.mpr hFits.ne_nil
        rw [List.length_append] at hLength
        rw [scan_of_first? mark hFits.ne_nil hFirst]
        exact .piece hFits.ne_nil (hLongest.of_perm hPerm.symm) (ih rest.length (by omega) rfl)

/-- The first pattern of the table that matches a text takes more of it than every other pattern
that matches. Every match is a beginning of the text and is not empty. And a source is cut into
tokens by longest matches, in whatever order the patterns are tried. -/
theorem tokenize_munches :
    (∀ (text : List Char) (before after : List Pattern) (pattern : Pattern) (n : Nat),
      Pattern.table = before ++ pattern :: after →
        (∀ other ∈ before, other.shape text = none) → pattern.shape text = some n →
          ∀ other ∈ before ++ after, ∀ m, other.shape text = some m → m < n) ∧
      (∀ pattern ∈ Pattern.table, ∀ (text : List Char) (n : Nat),
        pattern.shape text = some n → 0 < n ∧ n ≤ text.length) ∧
      ∀ patterns : List Pattern, patterns.Perm Pattern.table →
        ∀ (source : String) (result : Except Fault (List Token)),
          tokenize source = result ↔ Munched patterns .start source.toList result := by
  refine ⟨?_, ?_, ?_⟩
  · intro text before after pattern n hTable hBefore hText
    exact Pattern.lt_of_first hTable hBefore hText
  · intro pattern hMem text n hText
    exact Pattern.pos_of_mem_table hMem hText
  · intro patterns hPerm source result
    exact (munched_iff hPerm).symm

/-- A comment in place of a slash and a star, and a float in place of an integer, also with the
table turned around, in which the slash and the integer come first. -/
theorem tokenize_munches_turned :
    let source := "/* */ 1.5"
    let result : Except Fault (List Token) := .ok [⟨.float, "1.5", 6, 9, 1⟩, ⟨.eof, "EOF", 9, 9, 1⟩]
    Pattern.table.reverse.Perm Pattern.table ∧ tokenize source = result ∧
      Munched Pattern.table.reverse .start source.toList result := by
  intro source result
  have hTokens : tokenize source = result := by decide
  have hPerm := List.reverse_perm Pattern.table
  exact ⟨hPerm, hTokens, (tokenize_munches.2.2 _ hPerm source result).mp hTokens⟩

end Jingle.Token

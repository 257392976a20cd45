import Jingle.Proofs.Text.Slice
import Jingle.Proofs.Token.Pattern
import Jingle.Token.Lexer

/-!
# Reading lexemes back

A text is cut into pieces one after another, so what a piece is depends only on the text from its
beginning on. Lexemes with single spaces between them are cut at the spaces.

* `scan_of_first?` leads from the first piece of a text to its tokens, and `scan_blanks` over blanks
  at its beginning.
* `Lexeme.Valid.taken` says that a lexeme before a space, or at the end, is a piece of its own.
* `tokenize_join` gives the tokens of lexemes with single spaces between them.
-/

namespace Jingle.Token

open Text

/-! ## Pieces -/

theorem scan_eq_drop (skipped : Nat) (mark : Mark) (text : List Char) :
    scan skipped mark text = scan 0 mark (text.drop skipped) := by
  induction text generalizing skipped with
  | nil => simp [scan]
  | cons c text ih =>
    cases skipped with
    | zero => rfl
    | succ skipped => rw [scan, ih, List.drop_succ_cons]

/-- The tokens of a text are that of its first piece, if it has one, and those of the rest. -/
theorem scan_of_first? {piece rest : List Char} {role : Role} (mark : Mark) (hPiece : piece ≠ [])
    (hFirst : Pattern.first? Pattern.table (piece ++ rest) = some (piece.length, role)) :
    scan 0 mark (piece ++ rest) =
      (scan 0 (mark.advance piece) rest).map ((ofPiece? mark piece role).toList ++ ·) := by
  cases piece with
  | nil => exact absurd rfl hPiece
  | cons c piece =>
    have hTake : (c :: (piece ++ rest)).take (c :: piece).length = c :: piece := by simp
    have hDrop : (piece ++ rest).drop ((c :: piece).length - 1) = rest := by simp
    rw [List.cons_append] at hFirst ⊢
    simp only [scan, hFirst, hTake]
    rw [scan_eq_drop, hDrop]
    cases scan 0 (mark.advance (c :: piece)) rest <;> rfl

/-- A piece that is left out only moves the rest. -/
theorem scan_of_gap {piece rest : List Char} (mark : Mark) (hPiece : piece ≠ [])
    (hFirst : Pattern.first? Pattern.table (piece ++ rest) = some (piece.length, .gap)) :
    scan 0 mark (piece ++ rest) = scan 0 (mark.advance piece) rest := by
  rw [scan_of_first? mark hPiece hFirst]
  cases scan 0 (mark.advance piece) rest <;> rfl

theorem scan_dropWhile (mark : Mark) (text : List Char) :
    scan 0 mark text = scan 0 (mark.advance (text.takeWhile isBlank)) (text.dropWhile isBlank) := by
  cases text with
  | nil => rw [List.takeWhile_nil, List.dropWhile_nil, Mark.advance_nil]
  | cons c text =>
    cases hBlank : isBlank c with
    | false =>
      have hNot : ¬ isBlank c = true := by simp [hBlank]
      rw [List.takeWhile_cons_of_neg hNot, List.dropWhile_cons_of_neg hNot, Mark.advance_nil]
    | true =>
      rw [List.takeWhile_cons_of_pos hBlank, List.dropWhile_cons_of_pos hBlank]
      have hFirst : Pattern.first? Pattern.table
          ((c :: text.takeWhile isBlank) ++ text.dropWhile isBlank) =
            some ((c :: text.takeWhile isBlank).length, .gap) := by
        rw [List.cons_append, List.takeWhile_append_dropWhile, Pattern.first?_blank hBlank,
          List.length_cons, Nat.add_comm]
      have hScan := scan_of_gap mark (List.cons_ne_nil _ _) hFirst
      rwa [List.cons_append, List.takeWhile_append_dropWhile] at hScan

/-- Blanks before a text only move it. -/
theorem scan_blanks {blanks : List Char} (h : ∀ c ∈ blanks, isBlank c = true) (mark : Mark)
    (text : List Char) : scan 0 mark (blanks ++ text) = scan 0 (mark.advance blanks) text := by
  rw [scan_dropWhile mark, scan_dropWhile (mark.advance blanks), ← Mark.advance_append,
    List.takeWhile_append_of_pos h, List.dropWhile_append_of_pos h]

theorem scan_replicate {c : Char} (h : isBlank c = true) (count : Nat) (mark : Mark)
    (text : List Char) : scan 0 mark (List.replicate count c ++ text) =
      scan 0 (mark.advance (List.replicate count c)) text :=
  scan_blanks (fun _ hMem => List.eq_of_mem_replicate hMem ▸ h) mark text

/-! ## Escapes -/

theorem unescape_cons {c : Char} (h : c ≠ '\\') (text : List Char) :
    unescape (c :: text) = c :: unescape text := by
  rw [unescape]
  all_goals
    intros
    exact absurd ‹c = '\\'› h

theorem unescape_backslash {c d : Char} (h : escapeOf? c = some d) (text : List Char) :
    unescape ('\\' :: c :: text) = d :: unescape text := by
  have hRadix : c ≠ 'x' := by
    rintro rfl
    cases h
  rw [unescape, h]
  all_goals
    intros
    exact absurd ‹c = 'x'› hRadix

theorem unescape_stringForm (c : Char) (text : List Char) :
    unescape (stringForm c ++ text) = c :: unescape text := by
  rw [stringForm]
  split
  · next h =>
    rcases h with rfl | rfl
    · exact unescape_backslash rfl text
    · exact unescape_backslash rfl text
  · next h => exact unescape_cons (fun hBackslash => h (.inl hBackslash)) text

theorem unescape_stringForms (body : List Char) : unescape (body.flatMap stringForm) = body := by
  induction body with
  | nil => rfl
  | cons c body ih => rw [List.flatMap_cons, unescape_stringForm, ih]

theorem unescape_charForm (c : Char) : unescape (charForm c) = [c] := by
  rw [charForm]
  split
  · next h =>
    rw [h]
    rfl
  · split
    · next h =>
      rcases h with rfl | rfl
      · rfl
      · rfl
    · next h => exact unescape_cons (fun hBackslash => h (.inr hBackslash)) []

/-! ## Lexemes -/

/-- A piece that some pattern takes as a whole and that becomes a token of a kind with a value. -/
def Taken (kind : Kind) (value : String) (piece rest : List Char) : Prop :=
  ∃ role, Pattern.first? Pattern.table (piece ++ rest) = some (piece.length, role) ∧
    ∀ mark, ofPiece? mark piece role = some (ofText mark kind value piece)

theorem taken_mark {kind : Kind} (hKind : kind.spelling?.isSome) {rest : List Char}
    (hRest : Apart rest) : Taken kind (Lexeme.mark kind).value (Lexeme.mark kind).text rest := by
  -- The patterns look at most at the character after the piece, so evaluation settles each kind.
  cases rest with
  | nil => cases kind <;> cases hKind <;> exact ⟨_, rfl, fun _ => rfl⟩
  | cons c rest =>
    obtain rfl : c = ' ' := hRest c rfl
    cases kind <;> cases hKind <;> exact ⟨_, rfl, fun _ => rfl⟩

theorem taken_name {value : String} (hName : isName value) {rest : List Char}
    (hRest : Apart rest) : Taken .identifier value value.toList rest := by
  rw [isName] at hName
  split at hName
  · cases hName
  · next first others hValue =>
    simp only [Bool.and_eq_true, List.all_eq_true, Option.isNone_iff_eq_none] at hName
    obtain ⟨⟨hFirst, hOthers⟩, hReserved⟩ := hName
    have hParts : ∀ c ∈ others, isWordPart c = true := hOthers
    refine ⟨.word, ?_, fun mark => ?_⟩
    · rw [hValue, List.cons_append, Pattern.first?_word hFirst,
        takeWhile_append_of_apart hParts hRest rfl, List.length_cons, Nat.add_comm]
    · simp [ofPiece?, Kind.ofWord, hReserved]

theorem taken_integer (value : Nat) {rest : List Char} (hRest : Apart rest) :
    Taken .integer (toString value) (toString value).toList rest := by
  refine ⟨.plain .integer, ?_, fun mark => by rw [ofPiece?, String.ofList_toList]⟩
  rw [Nat.toString_eq_ofList_toDigits, String.toList_ofList]
  exact Pattern.first?_digits (fun c => Nat.isDigit_of_mem_toDigits (by decide) (by decide))
    Nat.toDigits_ne_nil hRest

theorem taken_char (value : Char) (rest : List Char) :
    Taken .char (String.singleton value) ('\'' :: (charForm value ++ ['\''])) rest := by
  refine ⟨.quoted .char, ?_, fun mark => ?_⟩
  · rw [List.cons_append, List.append_assoc, List.singleton_append, Pattern.first?_char]
    simp
  · simp [ofPiece?, unescape_charForm]

theorem taken_string (value : String) (rest : List Char) :
    Taken .string value ('"' :: (value.toList.flatMap stringForm ++ ['"'])) rest := by
  refine ⟨.quoted .string, ?_, fun mark => ?_⟩
  · rw [List.cons_append, List.append_assoc, List.singleton_append, Pattern.first?_string]
    simp only [List.length_cons, List.length_append, List.length_nil]
  · simp [ofPiece?, unescape_stringForms]

theorem taken_bool (value : Bool) {rest : List Char} (hRest : Apart rest) :
    Taken .bool (toString value) (toString value).toList rest := by
  cases rest with
  | nil => cases value <;> exact ⟨_, rfl, fun _ => rfl⟩
  | cons c rest =>
    obtain rfl : c = ' ' := hRest c rfl
    cases value <;> exact ⟨_, rfl, fun _ => rfl⟩

theorem Lexeme.Valid.taken {lexeme : Lexeme} (hValid : lexeme.Valid) {rest : List Char}
    (hRest : Apart rest) : Taken lexeme.kind lexeme.value lexeme.text rest := by
  cases hValid with
  | mark hKind => exact taken_mark hKind hRest
  | name hName => exact taken_name hName hRest
  | integer value => exact taken_integer value hRest
  | char value =>
    have hTaken := taken_char value rest
    simpa [Lexeme.text] using hTaken
  | string value => exact taken_string value rest
  | bool value => exact taken_bool value hRest

theorem Taken.ne_nil {kind : Kind} {value : String} {piece : List Char}
    (hTaken : Taken kind value piece []) : piece ≠ [] := by
  rintro rfl
  obtain ⟨role, hFirst, -⟩ := hTaken
  cases hFirst

/-- A piece that becomes a token is followed by the tokens of the rest. -/
theorem Taken.scan_eq {kind : Kind} {value : String} {piece rest : List Char}
    (hTaken : Taken kind value piece rest) (hPiece : piece ≠ []) (mark : Mark) :
    scan 0 mark (piece ++ rest) =
      (scan 0 (mark.advance piece) rest).map (ofText mark kind value piece :: ·) := by
  obtain ⟨role, hFirst, hToken⟩ := hTaken
  rw [scan_of_first? mark hPiece hFirst, hToken mark]
  rfl

/-- A source that is a single piece becomes a single token. -/
theorem Taken.tokenize_eq {kind : Kind} {value : String} {text : List Char}
    (hTaken : Taken kind value text []) :
    tokenize (String.ofList text) = .ok [ofText .start kind value text,
      endAt (Mark.start.advance text).offset (Mark.start.advance text).line] := by
  have hScan := hTaken.scan_eq hTaken.ne_nil .start
  rw [List.append_nil] at hScan
  rw [tokenize, String.toList_ofList, hScan]
  rfl

theorem Lexeme.join_cons_cons (first second : Lexeme) (others : List Lexeme) :
    join (first :: second :: others) = first.text ++ ' ' :: join (second :: others) := by
  simp [join, List.intercalate_cons_cons]

theorem scan_join {lexemes : List Lexeme} (hValid : Lexeme.AllValid lexemes) (mark : Mark) :
    ∃ tokens last, scan 0 mark (Lexeme.join lexemes) = .ok (tokens ++ [last]) ∧
      tokens.map lexeme = lexemes ∧ last.kind = .eof := by
  induction lexemes generalizing mark with
  | nil => exact ⟨[], _, rfl, rfl, rfl⟩
  | cons first others ih =>
    obtain ⟨hFirst, hOthers⟩ := Lexeme.allValid_cons.mp hValid
    have hNe : first.text ≠ [] := (hFirst.taken apart_nil).ne_nil
    cases others with
    | nil =>
      have hScan := (hFirst.taken apart_nil).scan_eq hNe mark
      rw [List.append_nil] at hScan
      let after := mark.advance first.text
      refine ⟨[ofText mark first.kind first.value first.text], endAt after.offset after.line, ?_,
        rfl, rfl⟩
      rw [Lexeme.join, List.map_singleton, List.intercalate_singleton, hScan]
      rfl
    | cons second others =>
      -- The space ends the first lexeme and only moves the second.
      have hApart := apart_space (Lexeme.join (second :: others))
      have hSpace : ∀ c ∈ [' '], isBlank c = true := List.forall_mem_singleton.mpr rfl
      obtain ⟨tokens, last, hScan, hTokens, hLast⟩ :=
        ih hOthers ((mark.advance first.text).advance [' '])
      refine ⟨ofText mark first.kind first.value first.text :: tokens, last, ?_, ?_, hLast⟩
      · rw [Lexeme.join_cons_cons, (hFirst.taken hApart).scan_eq hNe, ← List.singleton_append,
          scan_blanks hSpace, hScan]
        rfl
      · rw [List.map_cons, hTokens]
        rfl

/-- Lexemes with single spaces between them are read back one by one. -/
theorem tokenize_join {lexemes : List Lexeme} (hValid : Lexeme.AllValid lexemes) :
    ∃ tokens last, tokenize (String.ofList (Lexeme.join lexemes)) = .ok (tokens ++ [last]) ∧
      tokens.map lexeme = lexemes ∧ last.kind = .eof := by
  rw [tokenize, String.toList_ofList]
  exact scan_join hValid .start

end Jingle.Token

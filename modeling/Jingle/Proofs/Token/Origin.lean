import Jingle.Proofs.Token.Lossless

/-!
# The texts of tokens

Every token of a source but the last one was cut from it, at the place where the first pattern that
matches takes its text. The text has the form of its kind, and the token has the value of the text.

* `CutFrom source piece token` says that a piece of a source made a token, and
  `exists_cutFrom_of_tokenize` that every token but the last is made so.
* `Shaped.form` and `Shaped.exists_body` give the form of the piece and the value of the token, and
  `form_of_tokenize` gives the form of the value of a token without quotes.
-/

namespace Jingle.Token

open Text

/-- At some place of the source the first pattern that matches takes the piece, and the piece makes
the token. -/
def CutFrom (source piece : List Char) (token : Token) : Prop :=
  ∃ before rest role, source = before ++ (piece ++ rest) ∧
    Pattern.first? Pattern.table (piece ++ rest) = some (piece.length, role) ∧
      ofPiece? (Mark.start.advance before) piece role = some token

theorem exists_piece_of_scan {token : Token} (hKind : token.kind ≠ .eof) {mark : Mark}
    {text : List Char} {tokens : List Token} (h : scan 0 mark text = .ok tokens) :
    token ∈ tokens → ∃ before piece rest role, text = before ++ (piece ++ rest) ∧
      Pattern.first? Pattern.table (piece ++ rest) = some (piece.length, role) ∧
        ofPiece? (mark.advance before) piece role = some token := by
  refine scan_induction (P := fun mark text tokens => token ∈ tokens → ∃ before piece rest role,
    text = before ++ (piece ++ rest) ∧
      Pattern.first? Pattern.table (piece ++ rest) = some (piece.length, role) ∧
        ofPiece? (mark.advance before) piece role = some token) ?_ ?_ h
  · intro mark hMem
    rw [List.mem_singleton.mp hMem] at hKind
    exact absurd rfl hKind
  · intro mark piece rest role others _ hFirst ih hMem
    rcases List.mem_append.mp hMem with hHere | hLater
    · refine ⟨[], piece, rest, role, rfl, hFirst, ?_⟩
      rw [Mark.advance_nil]
      exact Option.mem_toList.mp hHere
    · obtain ⟨before, piece', rest', role', rfl, hFirst', hToken⟩ := ih hLater
      refine ⟨piece ++ before, piece', rest', role', (List.append_assoc _ _ _).symm, hFirst', ?_⟩
      rwa [Mark.advance_append]

/-- Every token of a source but the last one was cut from it. -/
theorem exists_cutFrom_of_tokenize {source : String} {tokens : List Token}
    (h : tokenize source = .ok tokens) {token : Token} (hMem : token ∈ tokens)
    (hKind : token.kind ≠ .eof) : ∃ piece, CutFrom source.toList piece token := by
  obtain ⟨before, piece, rest, role, hSource, hFirst, hToken⟩ := exists_piece_of_scan hKind h hMem
  exact ⟨piece, before, rest, role, hSource, hFirst, hToken⟩

theorem CutFrom.shaped {source piece : List Char} {token : Token}
    (h : CutFrom source piece token) : Shaped token.kind token.value piece := by
  obtain ⟨before, rest, role, -, hFirst, hToken⟩ := h
  rcases ofPiece?_of_fits (Pattern.fits_of_first? hFirst) (Mark.start.advance before) with
    ⟨hNone, -⟩ | ⟨kind, value, hSome, hShaped⟩
  · cases hNone.symm.trans hToken
  · cases hSome.symm.trans hToken
    exact hShaped

theorem start_of_ofPiece? {mark : Mark} {piece : List Char} {role : Role} {token : Token}
    (h : ofPiece? mark piece role = some token) : token.start = mark.offset := by
  cases role with
  | gap => cases h
  | plain kind => cases h; rfl
  | quoted kind => cases h; rfl
  | word => cases h; rfl

/-- A token does not begin with a blank. -/
theorem CutFrom.exists_visible {source piece : List Char} {token : Token}
    (h : CutFrom source piece token) :
    ∃ before c after, source = before ++ c :: after ∧
      token.start = (Mark.start.advance before).offset ∧ isBlank c = false := by
  have hNe := h.shaped.written.ne_nil
  obtain ⟨before, rest, role, hSource, hFirst, hToken⟩ := h
  cases piece with
  | nil => exact absurd rfl hNe
  | cons c piece =>
    refine ⟨before, c, piece ++ rest, hSource, start_of_ofPiece? hToken, ?_⟩
    rw [← Bool.not_eq_true]
    intro hBlank
    rw [List.cons_append, Pattern.first?_blank hBlank] at hFirst
    obtain ⟨-, rfl⟩ := Prod.mk.inj (Option.some.inj hFirst)
    cases hToken

namespace Shaped

variable {kind : Kind} {value : String} {text : List Char}

/-- A token without quotes has its text as its value, and the text has the form of its kind. -/
theorem form (h : Shaped kind value text) (hQuote : kind.quote? = none) :
    kind.Form text ∧ value = String.ofList text := by
  cases h with
  | quoted hSome _ => cases hSome.symm.trans hQuote
  | plain _ _ hForm => exact ⟨hForm, rfl⟩

/-- A token in quotes has the value that the body between the quotes denotes, and the body has the
form of its kind. -/
theorem exists_body (h : Shaped kind value text) {quote : Char}
    (hQuote : kind.quote? = some quote) :
    ∃ body, kind.Form body ∧ text = quote :: (body ++ [quote]) ∧
      value = String.ofList (unescape body) := by
  cases h with
  | quoted hSome hForm =>
    obtain rfl := Option.some.inj (hSome.symm.trans hQuote)
    exact ⟨_, hForm, rfl, rfl⟩
  | plain hNone _ _ => cases hNone.symm.trans hQuote

end Shaped

/-- The value of a token without quotes has the form of its kind. -/
theorem form_of_tokenize {source : String} {tokens : List Token} (h : tokenize source = .ok tokens)
    {token : Token} (hMem : token ∈ tokens) (hEnd : token.kind ≠ .eof)
    (hQuote : token.kind.quote? = none) : token.kind.Form token.value.toList := by
  obtain ⟨piece, hCut⟩ := exists_cutFrom_of_tokenize h hMem hEnd
  obtain ⟨hForm, hValue⟩ := hCut.shaped.form hQuote
  rwa [hValue, String.toList_ofList]

end Jingle.Token

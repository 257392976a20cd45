import Jingle.Proofs.Text.Slice
import Jingle.Proofs.Token.Lexer
import Jingle.Proofs.Token.Shape
import Mathlib.Data.List.Chain

/-!
# Nothing of a source is lost

The tokens of a source lie in it one after another, with nothing but blanks and comments before,
between and after them. The text of a token gives its value back.

* `scan_eq_ok_cases` says what one step through a text does, and `scan_induction` leads from one
  step to all of them.
* `Laid mark text tokens` says that a text is made of tokens and of what is left out, and
  `laid_of_scan` that the tokens of a text are laid out so.
* `Lossless` says the same by the offsets of the tokens, and `tokenize_lossless` that it holds of
  all sources whose offsets fit into their words.
-/

namespace Jingle.Token

open Text

/-! ## One step -/

/-- A text that is cut into tokens is empty, or a piece of it is taken first and the rest is cut
into tokens from the place after that piece. -/
theorem scan_eq_ok_cases {mark : Mark} {text : List Char} {tokens : List Token}
    (h : scan 0 mark text = .ok tokens) :
    (text = [] ∧ tokens = [endAt mark.offset mark.line]) ∨
      ∃ piece rest role others, text = piece ++ rest ∧ role.Fits piece rest ∧
        Pattern.first? Pattern.table (piece ++ rest) = some (piece.length, role) ∧
          scan 0 (mark.advance piece) rest = .ok others ∧
            tokens = (ofPiece? mark piece role).toList ++ others := by
  cases hFirst : Pattern.first? Pattern.table text with
  | none =>
    cases text with
    | nil => exact .inl ⟨rfl, (Except.ok.inj h).symm⟩
    | cons c text =>
      rw [scan, hFirst] at h
      cases h
  | some found =>
    obtain ⟨n, role⟩ := found
    obtain ⟨piece, rest, rfl, rfl, hFits⟩ := Pattern.first?_fits hFirst
    rw [scan_of_first? mark hFits.ne_nil hFirst] at h
    cases hOthers : scan 0 (mark.advance piece) rest with
    | error fault =>
      rw [hOthers] at h
      cases h
    | ok others =>
      rw [hOthers] at h
      exact .inr ⟨piece, rest, role, others, rfl, hFits, hFirst, hOthers, (Except.ok.inj h).symm⟩

/-- What holds at the end of a text and is kept by every piece before it holds of every text that is
cut into tokens. -/
theorem scan_induction {P : Mark → List Char → List Token → Prop}
    (hEnd : ∀ mark, P mark [] [endAt mark.offset mark.line])
    (hPiece : ∀ {mark : Mark} {piece rest : List Char} {role : Role} {others : List Token},
      role.Fits piece rest →
      Pattern.first? Pattern.table (piece ++ rest) = some (piece.length, role) →
      P (mark.advance piece) rest others →
      P mark (piece ++ rest) ((ofPiece? mark piece role).toList ++ others))
    {mark : Mark} {text : List Char} {tokens : List Token} (h : scan 0 mark text = .ok tokens) :
    P mark text tokens := by
  -- Every piece is not empty, so the rest of the text is shorter.
  generalize hLength : text.length = length
  induction length using Nat.strongRecOn generalizing mark text tokens with
  | ind length ih =>
    rcases scan_eq_ok_cases h with
      ⟨rfl, rfl⟩ | ⟨piece, rest, role, others, rfl, hFits, hFirst, hScan, rfl⟩
    · exact hEnd mark
    · have hPos := List.length_pos_iff.mpr hFits.ne_nil
      rw [List.length_append] at hLength
      exact hPiece hFits hFirst (ih rest.length (by omega) hScan rfl)

/-! ## Tokens and gaps -/

/-- Pieces of text that are left out one after another, before the rest of the text. -/
inductive Gap : List Char → List Char → Prop where
  | nil {rest : List Char} : Gap [] rest
  | cons {piece gap rest : List Char} : Skipped piece (gap ++ rest) → Gap gap rest →
      Gap (piece ++ gap) rest

/-- The text of a token. A literal in quotes has the value that its body denotes, and any other
token has its text as its value. -/
inductive Written : Kind → String → List Char → Prop where
  | quoted {kind : Kind} {quote : Char} (body : List Char) : kind.quote? = some quote →
      Written kind (String.ofList (unescape body)) (quote :: (body ++ [quote]))
  | plain {kind : Kind} {text : List Char} : kind.quote? = none → kind ≠ .eof → text ≠ [] →
      Written kind (String.ofList text) text

theorem Written.ne_nil {kind : Kind} {value : String} {text : List Char}
    (h : Written kind value text) : text ≠ [] := by
  cases h with
  | quoted => simp
  | plain _ _ hNe => exact hNe

theorem Written.kind_ne_eof {kind : Kind} {value : String} {text : List Char}
    (h : Written kind value text) : kind ≠ .eof := by
  cases h with
  | quoted _ hQuote =>
    rintro rfl
    cases hQuote
  | plain _ hEnd _ => exact hEnd

/-- The text of a token that has the form of its kind. -/
inductive Shaped : Kind → String → List Char → Prop where
  | quoted {kind : Kind} {quote : Char} {body : List Char} : kind.quote? = some quote →
      kind.Form body → Shaped kind (String.ofList (unescape body)) (quote :: (body ++ [quote]))
  | plain {kind : Kind} {text : List Char} : kind.quote? = none → kind ≠ .eof → kind.Form text →
      Shaped kind (String.ofList text) text

theorem Shaped.written {kind : Kind} {value : String} {text : List Char}
    (h : Shaped kind value text) : Written kind value text := by
  cases h with
  | quoted hQuote _ => exact .quoted _ hQuote
  | plain hQuote hEnd hForm => exact .plain hQuote hEnd (hForm.ne_nil hQuote)

theorem shaped_word {word : List Char} (h : word ≠ []) :
    Shaped (Kind.ofWord (String.ofList word)) (String.ofList word) word := by
  unfold Kind.ofWord Kind.ofReserved?
  split <;> exact .plain rfl (by decide) h

/-- A piece that fits its role is left out, or it is the text of a token. -/
theorem ofPiece?_of_fits {role : Role} {piece rest : List Char} (hFits : role.Fits piece rest)
    (mark : Mark) :
    (ofPiece? mark piece role = none ∧ Skipped piece rest) ∨
      ∃ kind value, ofPiece? mark piece role = some (ofText mark kind value piece) ∧
        Shaped kind value piece := by
  cases role with
  | gap => exact .inl ⟨rfl, hFits⟩
  | plain kind =>
    obtain ⟨hForm, hQuote, hEnd⟩ := hFits
    exact .inr ⟨kind, _, rfl, .plain hQuote hEnd hForm⟩
  | quoted kind =>
    obtain ⟨quote, body, hQuote, hForm, rfl⟩ := hFits
    refine .inr ⟨kind, _, rfl, ?_⟩
    have hBody : ((quote :: (body ++ [quote])).drop 1).dropLast = body := by simp
    rw [hBody]
    exact .quoted hQuote hForm
  | word => exact .inr ⟨_, _, rfl, shaped_word hFits⟩

/-- A text from a place on is made of tokens with gaps before them, and of a gap before its end. -/
inductive Laid : Mark → List Char → List Token → Prop where
  | last {mark : Mark} {gap : List Char} : Gap gap [] →
      Laid mark gap [endAt (mark.advance gap).offset (mark.advance gap).line]
  | token {mark : Mark} {gap text rest : List Char} {kind : Kind} {value : String}
      {tokens : List Token} : Gap gap (text ++ rest) → Written kind value text →
      Laid (mark.advance (gap ++ text)) rest tokens →
      Laid mark (gap ++ (text ++ rest)) (ofText (mark.advance gap) kind value text :: tokens)

theorem Laid.skip {mark : Mark} {piece rest : List Char} {tokens : List Token}
    (hPiece : Skipped piece rest) (h : Laid (mark.advance piece) rest tokens) :
    Laid mark (piece ++ rest) tokens := by
  cases h with
  | last hGap =>
    rw [← Mark.advance_append]
    exact .last (.cons (by simpa using hPiece) hGap)
  | token hGap hText hRest =>
    rw [← Mark.advance_append] at hRest ⊢
    rw [← List.append_assoc]
    exact .token (.cons hPiece hGap) hText (by rwa [List.append_assoc])

/-- The tokens of a text are laid out in it. -/
theorem laid_of_scan {mark : Mark} {text : List Char} {tokens : List Token}
    (h : scan 0 mark text = .ok tokens) : Laid mark text tokens := by
  refine scan_induction (P := Laid) ?_ ?_ h
  · intro mark
    have hLast : Laid mark [] [endAt (mark.advance []).offset (mark.advance []).line] :=
      .last .nil
    rwa [Mark.advance_nil] at hLast
  · intro mark piece rest role others hFits _ hRest
    rcases ofPiece?_of_fits hFits mark with ⟨hNone, hSkipped⟩ | ⟨kind, value, hSome, hShaped⟩
    · rw [hNone]
      exact hRest.skip hSkipped
    · rw [hSome]
      have hToken : Laid mark ([] ++ (piece ++ rest))
          (ofText (mark.advance []) kind value piece :: others) := .token .nil hShaped.written hRest
      rwa [Mark.advance_nil] at hToken

/-! ## What follows from the layout -/

/-- Every token but the last has its text in the text, at its place. -/
theorem Laid.exists_of_mem {mark : Mark} {text : List Char} {tokens : List Token}
    (h : Laid mark text tokens) {token : Token} (hMem : token ∈ tokens)
    (hKind : token.kind ≠ .eof) :
    ∃ before part rest, text = before ++ (part ++ rest) ∧ Written token.kind token.value part ∧
      token = ofText (mark.advance before) token.kind token.value part := by
  induction h with
  | last =>
    obtain rfl := List.mem_singleton.mp hMem
    exact absurd rfl hKind
  | @token mark gap part rest kind value tokens _ hText _ ih =>
    rcases List.mem_cons.mp hMem with rfl | hLater
    · exact ⟨gap, part, rest, rfl, hText, rfl⟩
    · obtain ⟨before, later, more, rfl, hWritten, hToken⟩ := ih hLater
      refine ⟨gap ++ part ++ before, later, more, by simp, hWritten, ?_⟩
      rwa [Mark.advance_append]

theorem Laid.exists_last {mark : Mark} {text : List Char} {tokens : List Token}
    (h : Laid mark text tokens) :
    ∃ front, tokens = front ++ [endAt (mark.advance text).offset (mark.advance text).line] ∧
      ∀ token ∈ front, token.kind ≠ .eof := by
  induction h with
  | last => exact ⟨[], rfl, by simp⟩
  | @token mark gap part rest kind value tokens _ hText _ ih =>
    obtain ⟨front, rfl, hFront⟩ := ih
    refine ⟨ofText (mark.advance gap) kind value part :: front, ?_, ?_⟩
    · rw [← Mark.advance_append, List.append_assoc]
      rfl
    · intro token hMem
      rcases List.mem_cons.mp hMem with rfl | hLater
      · exact hText.kind_ne_eof
      · exact hFront token hLater

/-- The byte offsets at which a token begins and ends. -/
def span (token : Token) : Nat × Nat :=
  (token.start.toNat, token.stop.toNat)

theorem span_ofText (mark : Mark) (kind : Kind) (value : String) (text : List Char)
    (h : mark.bytes + byteLength text < UInt32.size) :
    (ofText mark kind value text).span = (mark.bytes, mark.bytes + byteLength text) := by
  have hStart : mark.offset.toNat = mark.bytes := Mark.toNat_offset (by omega)
  have hStop : (mark.advance text).offset.toNat = mark.bytes + byteLength text :=
    Mark.toNat_offset h
  rw [span, ofText, hStart, hStop]

theorem span_endAt {mark : Mark} (h : mark.bytes < UInt32.size) :
    (endAt mark.offset mark.line).span = (mark.bytes, mark.bytes) := by
  rw [span, endAt, Mark.toNat_offset h]

/-- Tokens begin at or after the place from which they are laid out, and each begins at or after the
end of those before it. -/
theorem Laid.ordered {mark : Mark} {text : List Char} {tokens : List Token}
    (h : Laid mark text tokens) (hSize : mark.bytes + byteLength text < UInt32.size) :
    (∀ token ∈ tokens, mark.bytes ≤ token.span.1) ∧
      tokens.Pairwise fun a b => a.span.1 < b.span.1 ∧ a.span.2 ≤ b.span.1 := by
  induction h with
  | @last mark gap _ =>
    refine ⟨?_, List.pairwise_singleton ..⟩
    intro token hMem
    rw [List.mem_singleton.mp hMem, span_endAt (by simpa using hSize), Mark.advance_bytes]
    omega
  | @token mark gap part rest kind value tokens _ hText _ ih =>
    have hPart := byteLength_pos hText.ne_nil
    simp only [byteLength_append, Mark.advance_bytes] at hSize ih
    obtain ⟨hLater, hOrdered⟩ := ih (by omega)
    have hSpan := span_ofText (mark.advance gap) kind value part
      (by rw [Mark.advance_bytes]; omega)
    rw [Mark.advance_bytes] at hSpan
    constructor
    · rintro token (_ | ⟨_, hMem⟩)
      · rw [hSpan]
        omega
      · have := hLater token hMem
        omega
    · refine List.pairwise_cons.mpr ⟨?_, hOrdered⟩
      intro token hMem
      have := hLater token hMem
      rw [hSpan]
      omega

/-- Between two spans lies nothing but a gap. -/
def GapBetween (source : List Char) (a b : Nat × Nat) : Prop :=
  ∃ gap rest, Slice source a.2 b.1 gap rest ∧ Gap gap rest

theorem Laid.gaps {mark : Mark} {text : List Char} {tokens : List Token} (h : Laid mark text tokens)
    (before : List Char) (hMark : mark.bytes = byteLength before)
    (hSize : byteLength (before ++ text) < UInt32.size) (start : Nat) :
    List.IsChain (GapBetween (before ++ text)) ((start, mark.bytes) :: tokens.map span) := by
  induction h generalizing before start with
  | @last mark gap hGap =>
    rw [byteLength_append] at hSize
    rw [List.map_singleton, span_endAt (by rw [Mark.advance_bytes]; omega), Mark.advance_bytes]
    refine List.isChain_cons_cons.mpr ⟨⟨gap, [], ⟨before, ?_, hMark.symm, rfl⟩, hGap⟩, .singleton _⟩
    simp
  | @token mark gap part rest kind value tokens hGap hText _ ih =>
    have hSource : before ++ (gap ++ (part ++ rest)) = (before ++ gap ++ part) ++ rest := by simp
    have hNext : (mark.advance (gap ++ part)).bytes = byteLength (before ++ gap ++ part) := by
      simp only [Mark.advance_bytes, byteLength_append, hMark]
      omega
    have hRest := ih _ hNext (by rwa [← hSource]) (mark.advance gap).bytes
    simp only [byteLength_append] at hSize
    have hSpan := span_ofText (mark.advance gap) kind value part
      (by rw [Mark.advance_bytes]; omega)
    rw [List.map_cons, hSpan]
    refine List.isChain_cons_cons.mpr
      ⟨⟨gap, part ++ rest, ⟨before, rfl, hMark.symm, rfl⟩, hGap⟩, ?_⟩
    rw [hSource]
    simpa only [Mark.advance_append, Mark.advance_bytes] using hRest

/-! ## Sources -/

/-- The tokens hold everything of a source but its gaps. -/
structure Lossless (source : List Char) (tokens : List Token) : Prop where
  /-- The last token marks the end of the source, and no other token does. -/
  ending : ∃ front last, tokens = front ++ [last] ∧ last.kind = .eof ∧
    last.span = (byteLength source, byteLength source) ∧ ∀ token ∈ front, token.kind ≠ .eof
  /-- Every other token has a text in the source, which is not empty and gives its value. -/
  text : ∀ token ∈ tokens, token.kind ≠ .eof → token.start < token.stop ∧
    ∃ part rest, Slice source token.span.1 token.span.2 part rest ∧
      Written token.kind token.value part
  /-- The tokens are in order and do not overlap. -/
  order : tokens.Pairwise fun a b => a.start < b.start ∧ a.stop ≤ b.start
  /-- Before the first token and between any two in a row lies a gap. -/
  gaps : List.IsChain (GapBetween source) ((0, 0) :: tokens.map span)

/-- Every token of a source but the last has its text in the source, on the line after as many line
feeds as there are before it. -/
theorem exists_text_of_tokenize {source : String} {tokens : List Token}
    (hSize : byteLength source.toList < UInt32.size) (hTokens : tokenize source = .ok tokens)
    {token : Token} (hMem : token ∈ tokens) (hKind : token.kind ≠ .eof) :
    ∃ before part rest, source.toList = before ++ (part ++ rest) ∧
      Written token.kind token.value part ∧
        token.span = (byteLength before, byteLength before + byteLength part) ∧
          token.line.toNat = 1 + before.count '\n' := by
  obtain ⟨before, part, rest, hSource, hWritten, hToken⟩ :=
    (laid_of_scan hTokens).exists_of_mem hMem hKind
  have hPart := byteLength_pos hWritten.ne_nil
  rw [hSource, byteLength_append, byteLength_append] at hSize
  have hBytes : (Mark.start.advance before).bytes = byteLength before := by simp [Mark.start]
  refine ⟨before, part, rest, hSource, hWritten, ?_, ?_⟩
  · rw [hToken, span_ofText _ _ _ _ (by omega), hBytes]
  · rw [hToken]
    exact Mark.toNat_line_start (by omega)

/-- The last token of a source is at its end. -/
theorem eq_endAt_of_tokenize {source : String} {tokens : List Token}
    (hTokens : tokenize source = .ok tokens) {token : Token} (hMem : token ∈ tokens)
    (hKind : token.kind = .eof) :
    token = endAt (Mark.start.advance source.toList).offset
      (Mark.start.advance source.toList).line := by
  obtain ⟨front, rfl, hFront⟩ := (laid_of_scan hTokens).exists_last
  rcases List.mem_append.mp hMem with hFrontMem | hLast
  · exact absurd hKind (hFront token hFrontMem)
  · exact List.mem_singleton.mp hLast

/-- No token reaches over the end of its source. -/
theorem span_le_of_mem_tokenize {source : String} {tokens : List Token}
    (hSize : byteLength source.toList < UInt32.size) (hTokens : tokenize source = .ok tokens)
    {token : Token} (hMem : token ∈ tokens) :
    token.span.1 ≤ byteLength source.toList ∧ token.span.2 ≤ byteLength source.toList := by
  by_cases hKind : token.kind = .eof
  · have hSpan : token.span = (byteLength source.toList, byteLength source.toList) := by
      rw [eq_endAt_of_tokenize hTokens hMem hKind, span, endAt, Mark.toNat_offset_start hSize]
    rw [hSpan]
    exact ⟨Nat.le_refl _, Nat.le_refl _⟩
  · obtain ⟨before, part, rest, hSource, -, hSpan, -⟩ :=
      exists_text_of_tokenize hSize hTokens hMem hKind
    rw [hSpan, hSource, byteLength_append, byteLength_append]
    omega

/-- The tokens of a source whose offsets fit into their words hold everything of it but its
gaps. -/
theorem tokenize_lossless {source : String} {tokens : List Token}
    (hSize : byteLength source.toList < UInt32.size) (hTokens : tokenize source = .ok tokens) :
    Lossless source.toList tokens := by
  have hLaid := laid_of_scan hTokens
  have hBytes : (Mark.start.advance source.toList).bytes = byteLength source.toList := by
    simp [Mark.start]
  refine ⟨?_, ?_, ?_, ?_⟩
  · obtain ⟨front, hTokens, hFront⟩ := hLaid.exists_last
    refine ⟨front, _, hTokens, rfl, ?_, hFront⟩
    rw [span_endAt (by omega), hBytes]
  · intro token hMem hKind
    obtain ⟨before, part, rest, hSource, hWritten, hSpan, -⟩ :=
      exists_text_of_tokenize hSize hTokens hMem hKind
    have hPart := byteLength_pos hWritten.ne_nil
    constructor
    · have hLess : token.span.1 < token.span.2 := by
        rw [hSpan]
        omega
      exact UInt32.lt_iff_toNat_lt.mpr hLess
    · rw [hSpan]
      exact ⟨part, rest, ⟨before, hSource, rfl, rfl⟩, hWritten⟩
  · refine (hLaid.ordered (by simpa [Mark.start] using hSize)).2.imp ?_
    intro a b hOrder
    exact ⟨UInt32.lt_iff_toNat_lt.mpr hOrder.1, UInt32.le_iff_toNat_le.mpr hOrder.2⟩
  · exact hLaid.gaps [] rfl hSize 0

/-- A source with an escape, characters of several bytes and a comment at its end. -/
theorem tokenize_lossless_string :
    let source := "echo \"é\\n\"; /* ∀ */\n"
    let tokens : List Token :=
      [⟨.echoWord, "echo", 0, 4, 1⟩, ⟨.string, "é\n", 5, 11, 1⟩, ⟨.semicolon, ";", 11, 12, 1⟩,
        ⟨.eof, "EOF", 23, 23, 2⟩]
    byteLength source.toList < UInt32.size ∧ tokenize source = .ok tokens ∧
      Lossless source.toList tokens := by
  intro source tokens
  have hSize : byteLength source.toList < UInt32.size := by decide
  have hTokens : tokenize source = .ok tokens := by decide
  exact ⟨hSize, hTokens, tokenize_lossless hSize hTokens⟩

end Jingle.Token

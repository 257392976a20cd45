import Jingle.Proofs.Token.Lossless
import Jingle.Proofs.Token.Munch

/-!
# Sources that are cut off

What is cut from a text before a place does not change if the text ends earlier, as long as it goes
on to that place. So the fault of a source is the fault of every beginning of the source that holds
the character at which the cutting stops, and a shorter beginning has none.

* `Pattern.first?_eq_none_of_isPrefix` and `Pattern.first?_eq_some_of_isPrefix` compare the piece
  that is taken from a text with the one that is taken from a beginning of it.
* `StopsAt` says all of this about the place of a fault, and `exists_stopsAt_of_scan` that every
  fault has such a place.
* `tokenize_fault_of_cut` says it of sources.
-/

namespace Jingle.Token

open Text

/-! ## One piece -/

section Piece

variable {text whole : List Char} {n : Nat} (hPrefix : text <+: whole)

include hPrefix

theorem Shape.Munches.eq_none_of_isPrefix {shape : Shape} {Form : List Char → Prop}
    (h : shape.Munches Form) (hWhole : shape whole = none) : shape text = none := by
  cases hText : shape text with
  | none => rfl
  | some n =>
    obtain ⟨m, -, hSome⟩ := h.exists_of_imp (fun _ _ hPiece => hPiece.trans hPrefix) hText
    cases hWhole.symm.trans hSome

theorem Shape.Munches.eq_some_of_isPrefix {shape : Shape} {Form : List Char → Prop}
    (h : shape.Munches Form) (hWhole : shape whole = some n) (hLe : n ≤ text.length) :
    shape text = some n := by
  rw [← hWhole]
  apply h.congr
  intro piece hForm
  constructor
  · exact fun hPiece => hPiece.trans hPrefix
  · intro hPiece
    have hLength := h.length_le hWhole hForm hPiece
    exact List.prefix_of_prefix_length_le hPiece hPrefix (Nat.le_trans hLength hLe)

namespace Pattern

theorem first?_eq_none_of_isPrefix (h : first? table whole = none) : first? table text = none := by
  rw [first?_eq_none_iff] at h ⊢
  intro pattern hMem
  obtain ⟨Form, hForm⟩ := table_munches pattern hMem
  exact hForm.eq_none_of_isPrefix hPrefix (h pattern hMem)

theorem first?_eq_some_of_isPrefix {role : Role} (h : first? table whole = some (n, role))
    (hLe : n ≤ text.length) : first? table text = some (n, role) := by
  rw [first?_eq_some_iff] at h ⊢
  obtain ⟨before, pattern, after, hTable, hRole, hBefore, hWhole⟩ := h
  refine ⟨before, pattern, after, hTable, hRole, ?_, ?_⟩
  · intro other hMem
    obtain ⟨Form, hForm⟩ := table_munches other (hTable ▸ List.mem_append_left _ hMem)
    exact hForm.eq_none_of_isPrefix hPrefix (hBefore other hMem)
  · obtain ⟨Form, hForm⟩ := table_munches pattern (by simp [hTable])
    exact hForm.eq_some_of_isPrefix hPrefix hWhole hLe

end Pattern

end Piece

theorem scan_of_isPrefix {piece rest front : List Char} {role : Role} (mark : Mark)
    (hPiece : piece ≠ [])
    (hFirst : Pattern.first? Pattern.table (piece ++ rest) = some (piece.length, role))
    (hFront : front <+: rest) :
    scan 0 mark (piece ++ front) =
      (scan 0 (mark.advance piece) front).map ((ofPiece? mark piece role).toList ++ ·) := by
  have hPrefix : piece ++ front <+: piece ++ rest := (List.prefix_append_right_inj piece).mpr hFront
  apply scan_of_first? mark hPiece
  exact Pattern.first?_eq_some_of_isPrefix hPrefix hFirst (by simp)

/-! ## Faults -/

/-- A text in which cutting stops at once, or after a piece has been taken. -/
theorem scan_eq_error_cases {mark : Mark} {text : List Char} {fault : Fault}
    (h : scan 0 mark text = .error fault) :
    (∃ c rest, text = c :: rest ∧ Pattern.first? Pattern.table (c :: rest) = none ∧
      fault = ⟨.unrecognised (String.singleton c), mark.offset⟩) ∨
      ∃ piece rest role, text = piece ++ rest ∧ piece ≠ [] ∧
        Pattern.first? Pattern.table (piece ++ rest) = some (piece.length, role) ∧
          scan 0 (mark.advance piece) rest = .error fault := by
  cases hFirst : Pattern.first? Pattern.table text with
  | none =>
    cases text with
    | nil => cases h
    | cons c rest =>
      rw [scan, hFirst] at h
      exact .inl ⟨c, rest, rfl, hFirst, (Except.error.inj h).symm⟩
  | some found =>
    obtain ⟨n, role⟩ := found
    obtain ⟨piece, rest, rfl, rfl, hFits⟩ := Pattern.first?_fits hFirst
    rw [scan_of_first? mark hFits.ne_nil hFirst] at h
    cases hRest : scan 0 (mark.advance piece) rest with
    | ok others =>
      rw [hRest] at h
      cases h
    | error fault' =>
      rw [hRest] at h
      cases h
      exact .inr ⟨piece, rest, role, rfl, hFits.ne_nil, hFirst, hRest⟩

/-- No pattern matches at a character, the fault names it, the text before it is cut into tokens,
and every text that goes on at least to the character has the same fault. -/
structure StopsAt (mark : Mark) (before : List Char) (c : Char) (rest : List Char) (fault : Fault) :
    Prop where
  first?_eq_none : Pattern.first? Pattern.table (c :: rest) = none
  fault_eq : fault = ⟨.unrecognised (String.singleton c), (mark.advance before).offset⟩
  exists_tokens : ∃ tokens, scan 0 mark before = .ok tokens
  eq_error : ∀ front, front <+: rest → scan 0 mark (before ++ c :: front) = .error fault

theorem stopsAt_nil {mark : Mark} {c : Char} {rest : List Char}
    (hFirst : Pattern.first? Pattern.table (c :: rest) = none) :
    StopsAt mark [] c rest ⟨.unrecognised (String.singleton c), mark.offset⟩ := by
  refine ⟨hFirst, by rw [Mark.advance_nil], ⟨_, rfl⟩, ?_⟩
  intro front hFront
  have hNone := Pattern.first?_eq_none_of_isPrefix (List.cons_prefix_cons.mpr ⟨rfl, hFront⟩) hFirst
  rw [List.nil_append, scan, hNone]

theorem StopsAt.append {mark : Mark} {piece before rest : List Char} {c : Char} {role : Role}
    {fault : Fault} (hPiece : piece ≠ [])
    (hFirst : Pattern.first? Pattern.table (piece ++ (before ++ c :: rest)) =
      some (piece.length, role))
    (h : StopsAt (mark.advance piece) before c rest fault) :
    StopsAt mark (piece ++ before) c rest fault := by
  refine ⟨h.first?_eq_none, by rw [Mark.advance_append, ← h.fault_eq], ?_, ?_⟩
  · obtain ⟨tokens, hTokens⟩ := h.exists_tokens
    rw [scan_of_isPrefix mark hPiece hFirst (List.prefix_append before _), hTokens]
    exact ⟨_, rfl⟩
  · intro front hFront
    have hPrefix : before ++ c :: front <+: before ++ c :: rest :=
      (List.prefix_append_right_inj before).mpr (List.cons_prefix_cons.mpr ⟨rfl, hFront⟩)
    rw [List.append_assoc, scan_of_isPrefix mark hPiece hFirst hPrefix, h.eq_error front hFront]
    rfl

theorem exists_stopsAt_of_scan {mark : Mark} {text : List Char} {fault : Fault}
    (h : scan 0 mark text = .error fault) :
    ∃ before c rest, text = before ++ c :: rest ∧ StopsAt mark before c rest fault := by
  generalize hLength : text.length = length
  induction length using Nat.strongRecOn generalizing mark text with
  | ind length ih =>
    rcases scan_eq_error_cases h with
      ⟨c, rest, rfl, hFirst, rfl⟩ | ⟨piece, rest, role, rfl, hPiece, hFirst, hRest⟩
    · exact ⟨[], c, rest, rfl, stopsAt_nil hFirst⟩
    · have hPos := List.length_pos_iff.mpr hPiece
      rw [List.length_append] at hLength
      obtain ⟨before, c, after, rfl, hStops⟩ := ih rest.length (by omega) hRest rfl
      exact ⟨piece ++ before, c, after, (List.append_assoc _ _ _).symm, hStops.append hPiece hFirst⟩

/-! ## Sources -/

/-- A part of a text that reaches over a place holds the character at the place. -/
theorem exists_of_byteLength_lt {before front : List Char} {c : Char} {rest back : List Char}
    (hText : before ++ c :: rest = front ++ back) (hLess : byteLength before < byteLength front) :
    ∃ more, front = before ++ c :: more ∧ more <+: rest := by
  rcases List.prefix_or_prefix_of_prefix (List.prefix_append front back)
    (hText ▸ List.prefix_append before _) with hShort | ⟨tail, rfl⟩
  · have hLe := byteLength_le_of_isPrefix hShort
    omega
  · rw [List.append_assoc] at hText
    have hTail := List.append_cancel_left hText
    cases tail with
    | nil => simp at hLess
    | cons d more =>
      obtain ⟨rfl, hRest⟩ := List.cons.inj hTail
      exact ⟨more, rfl, back, hRest.symm⟩

/-- Cutting a source stops at one of its characters, at the offset of the fault. -/
theorem exists_stopsAt_of_tokenize {source : String} {fault : Fault}
    (hSize : byteLength source.toList < UInt32.size) (hFault : tokenize source = .error fault) :
    ∃ before c rest, source.toList = before ++ c :: rest ∧ byteLength before = fault.offset.toNat ∧
      StopsAt .start before c rest fault := by
  obtain ⟨before, c, rest, hSource, hStops⟩ := exists_stopsAt_of_scan hFault
  refine ⟨before, c, rest, hSource, ?_, hStops⟩
  rw [hSource, byteLength_append] at hSize
  rw [hStops.fault_eq, Mark.toNat_offset_start (by omega)]

/-- The fault of a source whose offsets fit into their words is at a character of the source,
which it names. No pattern matches from there on. The source up to that character is cut into
tokens, and every longer beginning of the source has the same fault. -/
theorem tokenize_fault_of_cut {source : String} {fault : Fault}
    (hSize : byteLength source.toList < UInt32.size) (hFault : tokenize source = .error fault) :
    ∃ before c rest, source.toList = before ++ c :: rest ∧
      byteLength before = fault.offset.toNat ∧ fault.cause = .unrecognised (String.singleton c) ∧
      (∀ pattern ∈ Pattern.table, pattern.shape (c :: rest) = none) ∧
      (∃ tokens, tokenize (String.ofList before) = .ok tokens) ∧
      ∀ front back, source.toList = front ++ back → fault.offset.toNat < byteLength front →
        tokenize (String.ofList front) = .error fault := by
  obtain ⟨before, c, rest, hSource, hOffset, hStops⟩ := exists_stopsAt_of_tokenize hSize hFault
  refine ⟨before, c, rest, hSource, hOffset, by rw [hStops.fault_eq],
    Pattern.first?_eq_none_iff.mp hStops.first?_eq_none, ?_, ?_⟩
  · obtain ⟨tokens, hTokens⟩ := hStops.exists_tokens
    exact ⟨tokens, by rw [tokenize, String.toList_ofList, hTokens]⟩
  · intro front back hFront hLess
    rw [← hOffset] at hLess
    obtain ⟨more, rfl, hMore⟩ := exists_of_byteLength_lt (hSource.symm.trans hFront) hLess
    rw [tokenize, String.toList_ofList, hStops.eq_error more hMore]

/-- A string without an end after a number, a word and a comment. The source is cut right after the
quote and inside of the string. -/
theorem tokenize_fault_of_cut_string :
    let source := "1e /* é */ \"é 1e"
    let fault : Fault := ⟨.unrecognised "\"", 12⟩
    byteLength source.toList < UInt32.size ∧ tokenize source = .error fault ∧
      (∃ before c rest, source.toList = before ++ c :: rest ∧ byteLength before = 12 ∧
        fault.cause = .unrecognised (String.singleton c) ∧
        (∀ pattern ∈ Pattern.table, pattern.shape (c :: rest) = none) ∧
        ∃ tokens, tokenize (String.ofList before) = .ok tokens) ∧
      tokenize "1e /* é */ \"" = .error fault ∧ tokenize "1e /* é */ \"é 1" = .error fault := by
  intro source fault
  have hSize : byteLength source.toList < UInt32.size := by decide
  have hFault : tokenize source = .error fault := by decide
  obtain ⟨before, c, rest, hSource, hOffset, hCause, hNone, hTokens, hCut⟩ :=
    tokenize_fault_of_cut hSize hFault
  exact ⟨hSize, hFault, ⟨before, c, rest, hSource, hOffset, hCause, hNone, hTokens⟩,
    hCut "1e /* é */ \"".toList "é 1e".toList (by decide) (by decide),
    hCut "1e /* é */ \"é 1".toList "e".toList (by decide) (by decide)⟩

end Jingle.Token

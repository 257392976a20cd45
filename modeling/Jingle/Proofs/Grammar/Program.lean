import Jingle.Proofs.Grammar.Statement

/-!
# Reading programs and the grammar of programs

A program is read up to the first token that marks the end. A list of tokens always has one for its
cursor, so what is read from any list is a program by the grammar.

* `Block.ofTokens_sound` and `Block.ofTokens_complete` compare `Block.ofTokens` with `ProgramIn`.
* `Block.ofTokens_eq_ok_iff_programIn` says that the program of a list with one end is the only one
  that the grammar gives.
-/

namespace Jingle.Grammar.Cursor

/-! ## Cursors on lists of tokens -/

theorem ends_ofTokens (tokens : List Token) : (ofTokens tokens).Ends := by
  cases tokens with
  | nil => exact ⟨_, List.mem_singleton_self _, rfl⟩
  | cons token tokens =>
    rw [ofTokens]
    split
    · next hLast => exact ⟨tokens.getLastD token, List.getLastD_mem_cons, hLast⟩
    · exact ⟨_, List.mem_cons_of_mem _ (List.mem_append_right _ (List.mem_singleton_self _)), rfl⟩

theorem tokens_ofTokens {tokens : List Token} {last : Token} (hLast : last.kind = .eof) :
    (ofTokens (tokens ++ [last])).tokens = tokens ++ [last] := by
  cases tokens with
  | nil => simp [ofTokens, Cursor.tokens, hLast]
  | cons token tokens => simp [ofTokens, Cursor.tokens, hLast]

theorem rest_ofTokens_le (tokens : List Token) :
    (ofTokens tokens).rest.length ≤ tokens.length := by
  cases tokens with
  | nil => exact Nat.le_refl 0
  | cons token tokens =>
    rw [ofTokens]
    split
    · exact Nat.le_succ _
    · exact Nat.le_of_eq List.length_append

/-- The tokens of a list are before its cursor, maybe with an end after them. -/
theorem isPrefix_ofTokens (tokens : List Token) : tokens <+: (ofTokens tokens).tokens := by
  cases tokens with
  | nil => exact List.nil_prefix
  | cons token tokens =>
    rw [ofTokens]
    split
    · exact List.prefix_rfl
    · exact ⟨_, rfl⟩

/-- What the cursor of a list passes is a beginning of the list. -/
theorem Passes.isPrefix {tokens passed : List Token} {c : Cursor}
    (h : (ofTokens tokens).Passes passed c) : passed <+: tokens := by
  refine List.prefix_of_prefix_length_le ⟨c.tokens, h.1.symm⟩ (isPrefix_ofTokens tokens) ?_
  have hLength := congrArg List.length h.1
  have hRest := rest_ofTokens_le tokens
  simp only [Cursor.tokens, List.length_cons, List.length_append] at hLength
  omega

/-- The last token of the cursor's list marks the end, and the others are from the given list. -/
theorem tokens_ofTokens_eq (tokens : List Token) :
    ∃ front last, (ofTokens tokens).tokens = front ++ [last] ∧ last.kind = .eof ∧
      ∀ token ∈ front, token ∈ tokens := by
  cases tokens with
  | nil => exact ⟨[], _, rfl, rfl, by simp⟩
  | cons token tokens =>
    rw [ofTokens]
    split
    · next hLast =>
      refine ⟨(token :: tokens).dropLast, tokens.getLastD token, ?_, hLast, ?_⟩
      · rw [← List.getLast_eq_getLastD (List.cons_ne_nil token tokens),
          List.dropLast_concat_getLast]
        rfl
      · exact fun token hMem => List.dropLast_subset _ hMem
    · exact ⟨token :: tokens, _, rfl, rfl, fun _ hMem => hMem⟩

/-- There is an end before every place of a list. -/
theorem Leads.ends {tokens : List Token} {c : Cursor} (h : (ofTokens tokens).Leads c) :
    c.Ends := by
  obtain ⟨front, last, hTokens, hLast, -⟩ := tokens_ofTokens_eq tokens
  rw [Leads, hTokens, List.suffix_concat_iff] at h
  obtain hNil | ⟨others, hOthers, -⟩ := h
  · cases hNil
  · refine ⟨last, ?_, hLast⟩
    rw [hOthers]
    exact List.mem_concat_self

/-- The tokens before a place of a list are from the list, apart from the end. -/
theorem Leads.mem {tokens : List Token} {c : Cursor} (h : (ofTokens tokens).Leads c)
    {token : Token} (hMem : token ∈ c.tokens) : token ∈ tokens ∨ token.kind = .eof := by
  obtain ⟨front, last, hTokens, hLast, hFront⟩ := tokens_ofTokens_eq tokens
  have hMem' : token ∈ front ++ [last] := hTokens ▸ List.IsSuffix.subset h hMem
  rcases List.mem_append.mp hMem' with hMem' | hMem'
  · exact .inl (hFront token hMem')
  · rw [List.mem_singleton.mp hMem']
    exact .inr hLast

/-- The tokens before the first end are determined. -/
theorem Passes.eq_of_eof {c c₁ c₂ : Cursor} {first second : List Token} (h₁ : c.Passes first c₁)
    (h₂ : c.Passes second c₂) (hEof₁ : c₁.kind = .eof) (hEof₂ : c₂.kind = .eof) :
    first = second := by
  induction first generalizing c second with
  | nil =>
    cases second with
    | nil => rfl
    | cons token second =>
      obtain rfl := h₁.nil
      exact absurd (h₂.kind_eq.symm.trans hEof₁) h₂.uncons.2.1
  | cons token first ih =>
    cases second with
    | nil =>
      obtain rfl := h₂.nil
      exact absurd (h₁.kind_eq.symm.trans hEof₂) h₁.uncons.2.1
    | cons token' second =>
      obtain ⟨hCurrent₁, -, hRest₁⟩ := h₁.uncons
      obtain ⟨hCurrent₂, -, hRest₂⟩ := h₂.uncons
      rw [← hCurrent₁, ← hCurrent₂, ih hRest₁ hRest₂]

end Jingle.Grammar.Cursor

namespace Jingle.Syntax.Block

open Grammar

/-! ## Programs -/

theorem ofTokens_sound {tokens : List Token} {block : Block}
    (hRead : Block.ofTokens tokens = .ok block) :
    ∃ passed c', (Cursor.ofTokens tokens).Passes passed c' ∧ c'.kind = .eof ∧
      ProgramIn passed block := by
  simp only [Block.ofTokens] at hRead
  split at hRead
  · next body c' hBody =>
    obtain rfl := Except.ok.inj hRead
    obtain ⟨passed, hPassed, hIn, hEof⟩ :=
      readAll_sound (Stmt.reader_sound _) _ (Cursor.ends_ofTokens tokens) hBody
    exact ⟨passed, c', hPassed, hEof, .program hIn⟩
  · cases hRead

theorem ofTokens_complete {tokens passed : List Token} {block : Block} {c' : Cursor}
    (hPassed : (Cursor.ofTokens tokens).Passes passed c') (hEof : c'.kind = .eof)
    (hIn : ProgramIn passed block) : Block.ofTokens tokens = .ok block := by
  cases hIn with
  | program hBody =>
    have hBound : passed.length < (Cursor.ofTokens tokens).budget := by
      have hLength := congrArg List.length hPassed.1
      simp only [Cursor.tokens, List.length_append, List.length_cons] at hLength
      unfold Cursor.budget
      omega
    have hRead := readAll_complete (Stmt.reader_complete _) hBody hBound hPassed hEof
    simp only [Block.ofTokens, hRead]

/-- A list of tokens with one end, at its end, is read exactly if the grammar makes a program of the
tokens before the end. The grammar makes only one program of them, which is what is read. -/
theorem ofTokens_eq_ok_iff_programIn {tokens : List Token} {last : Token}
    (hTokens : ∀ token ∈ tokens, token.kind ≠ .eof) (hLast : last.kind = .eof) :
    (∀ block, Block.ofTokens (tokens ++ [last]) = .ok block ↔ ProgramIn tokens block) ∧
      ∀ block block', ProgramIn tokens block → ProgramIn tokens block' → block = block' := by
  have hPassed : (Cursor.ofTokens (tokens ++ [last])).Passes tokens ⟨last, []⟩ :=
    ⟨Cursor.tokens_ofTokens hLast, hTokens⟩
  have hComplete {block : Block} (hIn : ProgramIn tokens block) :
      Block.ofTokens (tokens ++ [last]) = .ok block := ofTokens_complete hPassed hLast hIn
  constructor
  · intro block
    constructor
    · intro hRead
      obtain ⟨passed, c', hPassed', hEof, hIn⟩ := ofTokens_sound hRead
      rwa [hPassed.eq_of_eof hPassed' hLast hEof]
    · exact hComplete
  · intro block block' hIn hIn'
    exact Except.ok.inj ((hComplete hIn).symm.trans (hComplete hIn'))

/-- The program `x = a - b - c * d;`. -/
theorem ofTokens_assign_programIn :
    let token (kind : Token.Kind) (value : String) : Token := ⟨kind, value, 0, 0, 1⟩
    let name (value : String) := token .identifier value
    let symbol (value : String) : Expr := .symbol ⟨⟨1, none⟩, value⟩ ⟨1, none⟩
    ProgramIn
      [name "x", token .assign "=", name "a", token .dash "-", name "b", token .dash "-", name "c",
        token .star "*", name "d", token .semicolon ";"]
      ⟨1, [.assign ⟨⟨1, none⟩, "x"⟩
        (.binary .subtract (.binary .subtract (symbol "a") (symbol "b") ⟨1, none⟩)
          (.binary .multiply (symbol "c") (symbol "d") ⟨1, none⟩) ⟨1, none⟩) ⟨1, none⟩]⟩ :=
  ((ofTokens_eq_ok_iff_programIn (by decide) (rfl : (Token.endAt 0 1).kind = .eof)).1 _).mp rfl

end Jingle.Syntax.Block

import Jingle.Grammar.Cursor
import Jingle.Proofs.Grammar.Rules

/-!
# Passing tokens

A reader that succeeds passes tokens and leaves its cursor on the first token after them. It never
passes a token that marks the end, so that an end before the cursor stays before it.

* `Cursor.Passes c tokens c'` says which tokens lie between two places of a cursor, and
  `Cursor.Leads c c'` only that the second place is not before the first.
* `Reader.Sound` and `Reader.Complete` compare a reader with a rule of the grammar.
* `Reader.parenthesised_sound` and `Reader.parenthesised_complete` compare lists with commas.
-/

namespace Jingle.Grammar

open Token (Kind)

namespace Cursor

/-- The tokens from the cursor on. -/
def tokens (c : Cursor) : List Token :=
  c.current :: c.rest

/-- The cursor passes tokens, none of which marks the end. -/
def Passes (c : Cursor) (passed : List Token) (c' : Cursor) : Prop :=
  c.tokens = passed ++ c'.tokens ∧ ∀ token ∈ passed, token.kind ≠ .eof

/-- The cursor gets to another place of the same list without moving back. -/
def Leads (c c' : Cursor) : Prop :=
  c'.tokens <:+ c.tokens

/-- Somewhere before the cursor is an end. -/
def Ends (c : Cursor) : Prop :=
  ∃ token ∈ c.tokens, token.kind = .eof

theorem tokens_injective {c c' : Cursor} (h : c.tokens = c'.tokens) : c = c' := by
  cases c
  cases c'
  simpa [tokens] using h

theorem Passes.refl (c : Cursor) : c.Passes [] c := by
  simp [Passes]

theorem Leads.refl (c : Cursor) : c.Leads c :=
  List.suffix_refl _

theorem Leads.trans {c c' c'' : Cursor} (h : c.Leads c') (h' : c'.Leads c'') : c.Leads c'' :=
  List.IsSuffix.trans h' h

theorem Passes.leads {c c' : Cursor} {passed : List Token} (h : c.Passes passed c') :
    c.Leads c' :=
  ⟨passed, h.1.symm⟩

theorem Passes.nil {c c' : Cursor} (h : c.Passes [] c') : c = c' :=
  tokens_injective h.1

theorem Passes.append {c c' c'' : Cursor} {first second : List Token} (h : c.Passes first c')
    (h' : c'.Passes second c'') : c.Passes (first ++ second) c'' := by
  refine ⟨by rw [h.1, h'.1, List.append_assoc], ?_⟩
  intro token hMem
  rcases List.mem_append.mp hMem with hMem | hMem
  · exact h.2 token hMem
  · exact h'.2 token hMem

theorem Passes.cons {c c' c'' : Cursor} {token : Token} {passed : List Token}
    (h : c.Passes [token] c') (h' : c'.Passes passed c'') : c.Passes (token :: passed) c'' :=
  h.append h'

/-- Tokens that are passed together are passed one part after the other. -/
theorem Passes.split {c c'' : Cursor} {first second : List Token}
    (h : c.Passes (first ++ second) c'') : ∃ c', c.Passes first c' ∧ c'.Passes second c'' := by
  obtain ⟨token, tokens, hTokens⟩ : ∃ token tokens, second ++ c''.tokens = token :: tokens :=
    List.exists_cons_of_ne_nil (by simp [Cursor.tokens])
  refine ⟨⟨token, tokens⟩, ⟨?_, ?_⟩, ?_, ?_⟩
  · rw [h.1, List.append_assoc, hTokens]
    rfl
  · exact fun token hMem => h.2 token (List.mem_append_left _ hMem)
  · exact hTokens.symm
  · exact fun token hMem => h.2 token (List.mem_append_right _ hMem)

/-- The first of the passed tokens is the one under the cursor. -/
theorem Passes.uncons {c c' : Cursor} {token : Token} {passed : List Token}
    (h : c.Passes (token :: passed) c') :
    c.current = token ∧ token.kind ≠ .eof ∧ c.advance.Passes passed c' := by
  obtain ⟨current, rest⟩ := c
  obtain ⟨hTokens, hEof⟩ := h
  simp only [tokens, List.cons_append, List.cons.injEq] at hTokens
  obtain ⟨rfl, hRest⟩ := hTokens
  refine ⟨rfl, hEof current (by simp), ?_, fun token hMem => hEof token (by simp [hMem])⟩
  cases rest with
  | nil => simp at hRest
  | cons next rest => simpa [advance, tokens] using hRest

theorem Passes.ends {c c' : Cursor} {passed : List Token} (h : c.Passes passed c')
    (hEnds : c.Ends) : c'.Ends := by
  obtain ⟨token, hMem, hKind⟩ := hEnds
  rw [h.1] at hMem
  rcases List.mem_append.mp hMem with hMem | hMem
  · exact absurd hKind (h.2 token hMem)
  · exact ⟨token, hMem, hKind⟩

/-- A cursor with an end before it passes any token that is not an end. -/
theorem passes_advance {c : Cursor} (hEnds : c.Ends) (hKind : c.kind ≠ .eof) :
    c.Passes [c.current] c.advance := by
  obtain ⟨current, rest⟩ := c
  cases rest with
  | nil =>
    obtain ⟨token, hMem, hEof⟩ := hEnds
    rw [tokens, List.mem_singleton] at hMem
    subst hMem
    exact absurd hEof hKind
  | cons next rest => exact ⟨rfl, by simpa [kind] using hKind⟩

/-- The kind under the cursor is that of the first token to pass. -/
theorem Passes.kind_eq {c c' : Cursor} {token : Token} {passed : List Token}
    (h : c.Passes (token :: passed) c') : c.kind = token.kind :=
  congrArg Token.kind h.uncons.1

end Cursor

namespace Reader

/-! ## Readers that succeed -/

theorem bind_eq_ok {α β : Type} {r : Reader α} {f : α → Reader β} {c c'' : Cursor} {b : β} :
    (r >>= f) c = .ok b c'' ↔ ∃ a c', r c = .ok a c' ∧ f a c' = .ok b c'' := by
  simp only [bind, EStateM.bind]
  cases r c with
  | ok a c' =>
    constructor
    · exact fun h => ⟨a, c', rfl, h⟩
    · rintro ⟨_, _, h, h'⟩
      cases h
      exact h'
  | error fault c' => simp

theorem bind_of_eq_ok {α β : Type} {r : Reader α} {f : α → Reader β} {c c' : Cursor} {a : α}
    (h : r c = .ok a c') : (r >>= f) c = f a c' := by
  simp only [bind, EStateM.bind, h]

theorem pure_eq_ok {α : Type} {a b : α} {c c' : Cursor} :
    (pure a : Reader α) c = .ok b c' ↔ a = b ∧ c = c' := by
  simp [pure, EStateM.pure]

theorem kind_eq_ok {k : Kind} {c c' : Cursor} : kind c = .ok k c' ↔ c.kind = k ∧ c = c' := by
  simp [kind]

theorem nextKind_eq_ok {k : Kind} {c c' : Cursor} :
    nextKind c = .ok k c' ↔ c.nextKind = k ∧ c = c' := by
  simp [nextKind]

theorem next_eq_ok {token : Token} {c c' : Cursor} :
    next c = .ok token c' ↔ c.current = token ∧ c.advance = c' := by
  simp [next]

theorem expect_eq_ok {k : Kind} {token : Token} {c c' : Cursor} :
    expect k c = .ok token c' ↔ c.kind = k ∧ c.current = token ∧ c.advance = c' := by
  unfold expect expectOr
  split <;> simp_all

theorem expectFor_eq_ok {k : Kind} {message : String} {token : Token} {c c' : Cursor} :
    expectFor k message c = .ok token c' ↔ c.kind = k ∧ c.current = token ∧ c.advance = c' := by
  unfold expectFor expectOr
  split <;> simp_all

theorem failFor_ne_ok {α : Type} {message : String} {a : α} {c c' : Cursor} :
    ¬ failFor message c = .ok a c' := by
  simp [failFor]

theorem exhausted_ne_ok {α : Type} {a : α} {c c' : Cursor} : ¬ exhausted c = .ok a c' := by
  simp [exhausted]

theorem throw_ne_ok {α : Type} {fault : Fault} {a : α} {c c' : Cursor} :
    ¬ (throw fault : Reader α) c = .ok a c' := by
  intro h
  cases h

/-! ## Readers and rules -/

/-- Whatever the reader accepts is made of tokens by the rule. -/
def Sound {α : Type} (r : Reader α) (rule : List Token → α → Prop) : Prop :=
  ∀ {c c' : Cursor} {a : α}, c.Ends → r c = .ok a c' →
    ∃ passed, c.Passes passed c' ∧ rule passed a

/-- The reader accepts whatever fewer tokens than the bound make by the rule, if a fitting kind of
token follows. -/
def Complete {α : Type} (r : Reader α) (rule : List Token → α → Prop) (bound : Nat)
    (follow : Kind → Prop) : Prop :=
  ∀ {c c' : Cursor} {passed : List Token} {a : α}, rule passed a → passed.length < bound →
    c.Passes passed c' → follow c'.kind → r c = .ok a c'

variable {α : Type} {item : Reader α} {rule : List Token → α → Prop}

theorem commaSeparated_sound (hItem : Sound item rule) (steps : Nat) :
    Sound (commaSeparated item steps) (Separated rule) := by
  induction steps with
  | zero => exact fun _ hRead => absurd hRead exhausted_ne_ok
  | succ steps ih =>
    intro c c' as hEnds hRead
    simp only [commaSeparated, bind_eq_ok, kind_eq_ok] at hRead
    obtain ⟨a, c₁, hFirst, k, _, ⟨hKind, rfl⟩, hRead⟩ := hRead
    obtain ⟨passed, hPassed, hRule⟩ := hItem hEnds hFirst
    subst hKind
    split at hRead
    · next hComma =>
      simp only [bind_eq_ok, next_eq_ok, pure_eq_ok] at hRead
      obtain ⟨comma, _, ⟨rfl, rfl⟩, others, c₂, hOthers, rfl, rfl⟩ := hRead
      have hStep := Cursor.passes_advance (hPassed.ends hEnds) (by rw [hComma]; decide)
      obtain ⟨more, hMore, hRules⟩ := ih (hStep.ends (hPassed.ends hEnds)) hOthers
      exact ⟨_, hPassed.append (hStep.append hMore), .more hRule hComma hRules⟩
    · simp only [pure_eq_ok] at hRead
      obtain ⟨rfl, rfl⟩ := hRead
      exact ⟨passed, hPassed, .last hRule⟩

theorem parenthesised_sound (hItem : Sound item rule) (steps : Nat) :
    Sound (parenthesised item steps) (Parenthesised rule) := by
  intro c c' as hEnds hRead
  simp only [parenthesised, bind_eq_ok, kind_eq_ok, expect_eq_ok] at hRead
  obtain ⟨opening, _, ⟨hOpen, rfl, rfl⟩, k, _, ⟨rfl, rfl⟩, hRead⟩ := hRead
  have hOpening := Cursor.passes_advance hEnds (by rw [hOpen]; decide)
  have hEnds' := hOpening.ends hEnds
  split at hRead
  · simp only [bind_eq_ok, expect_eq_ok, pure_eq_ok] at hRead
    obtain ⟨_, _, ⟨rfl, rfl⟩, closing, _, ⟨hClose, rfl, rfl⟩, rfl, rfl⟩ := hRead
    have hClosing := Cursor.passes_advance hEnds' (by rw [hClose]; decide)
    exact ⟨_, hOpening.append hClosing, .none hOpen hClose⟩
  · simp only [bind_eq_ok, expect_eq_ok, pure_eq_ok] at hRead
    obtain ⟨as, c₁, hItems, closing, _, ⟨hClose, rfl, rfl⟩, rfl, rfl⟩ := hRead
    obtain ⟨passed, hPassed, hRules⟩ := commaSeparated_sound hItem steps hEnds' hItems
    have hClosing := Cursor.passes_advance (hPassed.ends hEnds') (by rw [hClose]; decide)
    exact ⟨_, hOpening.append (hPassed.append hClosing), .some hOpen hRules hClose⟩

theorem commaSeparated_complete {bound : Nat} {follow : Kind → Prop}
    (hItem : Complete item rule bound follow) (hComma : follow .comma) {passed : List Token}
    {as : List α} (hRules : Separated rule passed as) {c c' : Cursor} {steps : Nat}
    (hBound : passed.length < bound) (hSteps : passed.length < steps) (hPassed : c.Passes passed c')
    (hFollow : follow c'.kind) (hLast : c'.kind ≠ .comma) :
    commaSeparated item steps c = .ok as c' := by
  induction hRules generalizing c steps with
  | last hRule =>
    obtain ⟨steps, rfl⟩ : ∃ n, steps = n + 1 := ⟨steps - 1, by omega⟩
    simp only [commaSeparated, bind_eq_ok, kind_eq_ok]
    refine ⟨_, c', hItem hRule hBound hPassed hFollow, _, _, ⟨rfl, rfl⟩, ?_⟩
    rw [if_neg hLast]
    rfl
  | @more tokens others comma a as hRule hKind _ ih =>
    obtain ⟨steps, rfl⟩ : ∃ n, steps = n + 1 := ⟨steps - 1, by omega⟩
    obtain ⟨c₁, hFirst, hRest⟩ := hPassed.split
    obtain ⟨hCurrent, -, hOthers⟩ := hRest.uncons
    have hComma' : c₁.kind = .comma := hRest.kind_eq.trans hKind
    simp only [List.length_append, List.length_cons] at hBound hSteps
    simp only [commaSeparated, bind_eq_ok, kind_eq_ok]
    refine ⟨_, c₁, hItem hRule (by omega) hFirst (hComma' ▸ hComma), _, _, ⟨rfl, rfl⟩, ?_⟩
    rw [if_pos hComma']
    simp only [bind_eq_ok, next_eq_ok, pure_eq_ok]
    exact ⟨comma, _, ⟨hCurrent, rfl⟩, as, c', ih (by omega) (by omega) hOthers, rfl, rfl⟩

/-- Items in parentheses are read if no item begins with a closing parenthesis. -/
theorem parenthesised_complete {bound : Nat} (follow : Kind → Prop)
    (hItem : Complete item rule bound follow) (hComma : follow .comma)
    (hClose : follow .closeParen)
    (hHead : ∀ {tokens : List Token} {a : α}, rule tokens a →
      ∃ token others, tokens = token :: others ∧ token.kind ≠ .closeParen) :
    Complete (parenthesised item bound) (Parenthesised rule) (bound + 1) fun _ => True := by
  intro c c' passed as hRules hBound hPassed _
  simp only [parenthesised, bind_eq_ok, kind_eq_ok, expect_eq_ok]
  cases hRules with
  | @none opening closing hOpen hClosing =>
    obtain ⟨hCurrent, -, hRest⟩ := hPassed.uncons
    obtain ⟨hLast, -, hDone⟩ := hRest.uncons
    have hKind : c.advance.kind = .closeParen := hRest.kind_eq.trans hClosing
    refine ⟨opening, _, ⟨hPassed.kind_eq.trans hOpen, hCurrent, rfl⟩, _, _, ⟨rfl, rfl⟩, ?_⟩
    rw [if_pos hKind]
    simp only [bind_eq_ok, expect_eq_ok, pure_eq_ok]
    exact ⟨[], _, ⟨rfl, rfl⟩, closing, _, ⟨hKind, hLast, rfl⟩, rfl, hDone.nil⟩
  | @some opening closing tokens as hOpen hItems hClosing =>
    obtain ⟨hCurrent, -, hRest⟩ := hPassed.uncons
    obtain ⟨c₁, hTokens, hEnd⟩ := hRest.split
    obtain ⟨hLast, -, hDone⟩ := hEnd.uncons
    have hKind : c₁.kind = .closeParen := hEnd.kind_eq.trans hClosing
    have hFirst : c.advance.kind ≠ .closeParen := by
      cases hItems with
      | last hRule =>
        obtain ⟨token, others, rfl, hToken⟩ := hHead hRule
        rwa [hTokens.kind_eq]
      | more hRule _ _ =>
        obtain ⟨token, others, rfl, hToken⟩ := hHead hRule
        rw [List.cons_append] at hTokens
        rwa [hTokens.kind_eq]
    simp only [List.length_cons, List.length_append] at hBound
    have hRead : commaSeparated item bound c.advance = .ok as c₁ :=
      commaSeparated_complete hItem hComma hItems (by omega) (by omega) hTokens
        (hKind ▸ hClose) (by rw [hKind]; decide)
    refine ⟨opening, _, ⟨hPassed.kind_eq.trans hOpen, hCurrent, rfl⟩, _, _, ⟨rfl, rfl⟩, ?_⟩
    rw [if_neg hFirst]
    simp only [bind_eq_ok, expect_eq_ok, pure_eq_ok]
    exact ⟨as, c₁, hRead, closing, _, ⟨hKind, hLast, rfl⟩, rfl, hDone.nil⟩

end Reader

end Jingle.Grammar

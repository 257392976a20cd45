import Jingle.Grammar.Expression
import Jingle.Proofs.Grammar.Cursor

/-!
# Reading expressions and the grammar of expressions

The reader of expressions is driven by powers, and the grammar by strata. A reader at a power reads
expressions of the stratum above that power, as far as they go. Both directions are proved by
induction on the steps of the reader: one step leads from the readers of the parts to the reader of
the whole.

* `Expr.reader_sound` and `Expr.reader_complete` compare `Expr.reader` with `ExprIn`.
-/

namespace Jingle.Grammar

open Syntax
open Token (Kind)

/-! ## Strata and powers -/

/-- The power of the operators in the chains of a stratum. -/
def Stratum.power : Stratum → Power
  | logical => .logical
  | relational => .relational
  | additive => .additive
  | multiplicative => .multiplicative
  | unary => .unary

/-- The stratum of the expressions that are read at a power. -/
def Power.above : Power → Stratum
  | lowest => .logical
  | logical => .relational
  | relational => .additive
  | additive => .multiplicative
  | multiplicative => .unary
  | unary => .unary

theorem Stratum.power_above (stratum : Stratum) : stratum.power.above = stratum.operand := by
  cases stratum <;> rfl

theorem Stratum.operator?_eq_some {stratum : Stratum} {kind : Kind} {op : BinaryOp}
    (h : stratum.operator? kind = some op) :
    Tables.standard.power kind = stratum.power ∧ BinaryOp.ofKind? kind = some op ∧
      stratum ≠ .unary ∧ kind ≠ .eof ∧ kind ≠ .openParen := by
  cases stratum <;> cases kind <;> cases h <;> exact ⟨rfl, rfl, by decide, by decide, by decide⟩

/-- A kind of token that binds operands belongs to the chains of one stratum. -/
theorem Tables.standard_power (kind : Kind) :
    Tables.standard.power kind = .lowest ∨ ∃ stratum op, stratum ≠ Stratum.unary ∧
      Tables.standard.power kind = stratum.power ∧ stratum.operator? kind = some op := by
  cases kind
  case andAnd | orOr => exact Or.inr ⟨.logical, _, by decide, rfl, rfl⟩
  case less | lessEquals | greater | greaterEquals | equals | notEquals =>
    exact Or.inr ⟨.relational, _, by decide, rfl, rfl⟩
  case plus | dash => exact Or.inr ⟨.additive, _, by decide, rfl, rfl⟩
  case star | slash | percent => exact Or.inr ⟨.multiplicative, _, by decide, rfl, rfl⟩
  all_goals exact Or.inl rfl

theorem Tables.standard_operand?_ne_eof {kind : Kind} {form : OperandForm}
    (h : Tables.standard.operand? kind = some form) : kind ≠ .eof := by
  rintro rfl
  cases h

theorem Tables.standard_operand?_grouped {kind : Kind}
    (h : Tables.standard.operand? kind = some .grouped) : kind = .openParen := by
  cases kind <;> cases h
  rfl

theorem Tables.standard_operand?_prefixed {kind : Kind} {op : UnaryOp}
    (h : UnaryOp.ofKind? kind = some op) : Tables.standard.operand? kind = some .prefixed := by
  cases kind <;> cases h <;> rfl

theorem Tables.standard_operand?_eq_prefixed {kind : Kind}
    (h : Tables.standard.operand? kind = some .prefixed) :
    ∃ op, UnaryOp.ofKind? kind = some op := by
  cases kind <;> cases h <;> exact ⟨_, rfl⟩

theorem Stratum.rank_operand {stratum : Stratum} (h : stratum ≠ .unary) :
    stratum.operand.power.rank = stratum.power.rank + 1 := by
  cases stratum with
  | logical | relational | additive | multiplicative => rfl
  | unary => exact absurd rfl h

theorem Stratum.rank_le (stratum : Stratum) : stratum.power.rank ≤ Stratum.unary.power.rank := by
  cases stratum <;> decide

theorem Stratum.logical_le (stratum : Stratum) :
    Stratum.logical.power.rank ≤ stratum.power.rank := by
  cases stratum <;> decide

/-- The stratum above a power is the next one, as far as there is one. -/
theorem Power.rank_above (power : Power) :
    power.above.power.rank = min (power.rank + 1) Stratum.unary.power.rank := by
  cases power <;> rfl

theorem Power.rank_above_le {power : Power} {stratum : Stratum} (h : ¬ stratum.power ≤ power) :
    power.above.power.rank ≤ stratum.power.rank := by
  have hLess : ¬ stratum.power.rank ≤ power.rank := h
  have hAbove := power.rank_above
  omega

theorem Power.not_le_of_rank_above_le {power : Power} {stratum : Stratum}
    (h : power.above.power.rank ≤ stratum.power.rank) (hUnary : stratum ≠ .unary) :
    ¬ stratum.power ≤ power := by
  intro hLe
  have hRank : stratum.power.rank ≤ power.rank := hLe
  have hAbove := power.rank_above
  have hOperand := Stratum.rank_operand hUnary
  have hMost := stratum.operand.rank_le
  omega

theorem Power.rank_le_above (power : Power) : power.rank ≤ power.above.power.rank := by
  cases power <;> decide

theorem Power.le_unary (power : Power) : power ≤ Power.unary := by
  cases power <;> decide

theorem Stratum.eq_of_rank_eq {s t : Stratum} (h : s.power.rank = t.power.rank) : s = t := by
  revert h
  cases s <;> cases t <;> decide

/-! ## Expressions of the grammar -/

theorem LiteralIn.operand? {token : Token} {value : Literal} (h : LiteralIn token value) :
    Tables.standard.operand? token.kind = some .primary ∧ token.kind ≠ .identifier := by
  cases h <;> simp_all [Tables.standard]

/-- An expression begins with a token that begins an operand. -/
theorem ExprIn.head {stratum : Stratum} {tokens : List Token} {e : Expr} :
    ExprIn stratum tokens e → ∃ token others, tokens = token :: others ∧
      Tables.standard.operand? token.kind ≠ none
  | .chain _ hFirst _ => by
    obtain ⟨token, others, rfl, hToken⟩ := hFirst.head
    exact ⟨token, _, rfl, hToken⟩
  | .prefixed hOp _ => ⟨_, _, rfl, by simp [Tables.standard_operand?_prefixed hOp]⟩
  | .literal hLiteral => ⟨_, [], rfl, by simp [hLiteral.operand?]⟩
  | .symbol hKind => ⟨_, [], rfl, by rw [hKind]; decide⟩
  | .call hKind _ => ⟨_, _, rfl, by rw [hKind]; decide⟩
  | .grouped hOpen _ _ => ⟨_, _, rfl, by rw [hOpen]; decide⟩

theorem ExprIn.length_pos {stratum : Stratum} {tokens : List Token} {e : Expr}
    (h : ExprIn stratum tokens e) : 0 < tokens.length := by
  obtain ⟨token, others, rfl, -⟩ := h.head
  simp

theorem ChainIn.append {stratum : Stratum} {left middle tree : Expr} {first second : List Token} :
    ChainIn stratum left first middle → ChainIn stratum middle second tree →
      ChainIn stratum left (first ++ second) tree
  | .nil, h => h
  | .cons hOp hRight hRest, h => by
    rw [List.cons_append, List.append_assoc]
    exact .cons hOp hRight (hRest.append h)

/-- An expression of a stratum is one of every weaker stratum. -/
theorem ExprIn.weaken {t : Stratum} {tokens : List Token} {e : Expr} (h : ExprIn t tokens e)
    (s : Stratum) (hRank : s.power.rank ≤ t.power.rank) : ExprIn s tokens e := by
  by_cases hEq : s = t
  · exact hEq ▸ h
  · have hLess : s.power.rank ≠ t.power.rank := fun hRank => hEq (Stratum.eq_of_rank_eq hRank)
    have hUnary : s ≠ .unary := by
      rintro rfl
      exact hLess (Nat.le_antisymm hRank t.rank_le)
    have hOperand := Stratum.rank_operand hUnary
    simpa using ExprIn.chain hUnary (h.weaken s.operand (by omega)) .nil
termination_by Stratum.unary.power.rank - s.power.rank
decreasing_by
  have := t.rank_le
  omega

/-- A chain goes on with an operator and an operand of its stratum. -/
theorem ExprIn.extend {stratum : Stratum} {first tokens : List Token} {token : Token}
    {op : BinaryOp} {left right : Expr} (h : ExprIn stratum first left)
    (hOp : stratum.operator? token.kind = some op) (hRight : ExprIn stratum.operand tokens right) :
    ExprIn stratum (first ++ token :: tokens) (.binary op left right ⟨token.line, none⟩) := by
  have hUnary := (Stratum.operator?_eq_some hOp).2.2.1
  have hLast : ChainIn stratum left (token :: (tokens ++ [])) _ := .cons hOp hRight .nil
  rw [List.append_nil] at hLast
  cases h with
  | chain _ hFirst hRest =>
    rw [List.append_assoc]
    exact .chain hUnary hFirst (hRest.append hLast)
  | _ => exact absurd rfl hUnary

end Jingle.Grammar

namespace Jingle.Syntax

open Grammar Grammar.Reader
open Token (Kind)

theorem Literal.ofToken_eq_ok {token : Token} {value : Literal} :
    Literal.ofToken token = .ok value ↔ LiteralIn token value := by
  constructor
  · intro h
    unfold Literal.ofToken at h
    split at h
    · next hKind =>
      split at h <;> cases h
      next hValue => exact .integer hKind hValue
    · next hKind =>
      split at h <;> cases h
      next hValue => exact .float hKind hValue
    · next hKind =>
      split at h <;> cases h
      next hValue => exact .char hKind hValue
    · next hKind =>
      cases h
      exact .string hKind
    · next hKind =>
      cases h
      exact .bool hKind
    · cases h
  · intro h
    cases h <;> simp_all [Literal.ofToken]

namespace Expr

/-! ## Soundness -/

/-- Whatever is read at a power is an expression of the stratum above it, and the operator after it
does not bind more strongly. -/
def SoundReader (expr : Power → Reader Expr) : Prop :=
  ∀ {power : Power} {c c' : Cursor} {e : Expr}, c.Ends → expr power c = .ok e c' →
    ∃ passed, c.Passes passed c' ∧ ExprIn power.above passed e ∧
      Tables.standard.power c'.kind ≤ power

variable {expr : Power → Reader Expr}

theorem SoundReader.lowest (hExpr : SoundReader expr) : Sound (expr .lowest) (ExprIn .logical) := by
  intro c c' e hEnds hRead
  obtain ⟨passed, hPassed, hIn, -⟩ := hExpr hEnds hRead
  exact ⟨passed, hPassed, hIn⟩

theorem readPrimary_sound (hExpr : SoundReader expr) (steps : Nat) {c c' : Cursor} {e : Expr}
    (hEnds : c.Ends) (hKind : c.kind ≠ .eof) (hRead : readPrimary expr steps c = .ok e c') :
    ∃ passed, c.Passes passed c' ∧ ExprIn .unary passed e := by
  simp only [readPrimary, bind_eq_ok, next_eq_ok] at hRead
  obtain ⟨token, _, ⟨rfl, rfl⟩, hRead⟩ := hRead
  have hToken := Cursor.passes_advance hEnds hKind
  split at hRead
  · next hName =>
    simp only [bind_eq_ok, kind_eq_ok] at hRead
    obtain ⟨k, _, ⟨rfl, rfl⟩, hRead⟩ := hRead
    split at hRead
    · simp only [readCall, bind_eq_ok, pure_eq_ok] at hRead
      obtain ⟨arguments, _, hArguments, rfl, rfl⟩ := hRead
      obtain ⟨passed, hPassed, hIn⟩ :=
        parenthesised_sound hExpr.lowest steps (hToken.ends hEnds) hArguments
      exact ⟨_, hToken.append hPassed, .call hName hIn⟩
    · simp only [pure_eq_ok] at hRead
      obtain ⟨rfl, rfl⟩ := hRead
      exact ⟨_, hToken, .symbol hName⟩
  · cases hValue : Literal.ofToken c.current with
    | ok value =>
      simp only [hValue, pure_eq_ok] at hRead
      obtain ⟨rfl, rfl⟩ := hRead
      exact ⟨_, hToken, .literal (Literal.ofToken_eq_ok.mp hValue)⟩
    | error cause =>
      simp only [hValue] at hRead
      exact absurd hRead throw_ne_ok

theorem readPrefixed_sound (hExpr : SoundReader expr) {c c' : Cursor} {e : Expr}
    (hEnds : c.Ends) (hKind : c.kind ≠ .eof) (hRead : readPrefixed expr c = .ok e c') :
    ∃ passed, c.Passes passed c' ∧ ExprIn .unary passed e := by
  simp only [readPrefixed, bind_eq_ok, next_eq_ok] at hRead
  obtain ⟨token, _, ⟨rfl, rfl⟩, hRead⟩ := hRead
  have hToken := Cursor.passes_advance hEnds hKind
  cases hOp : UnaryOp.ofKind? c.current.kind with
  | some op =>
    simp only [hOp, bind_eq_ok, pure_eq_ok] at hRead
    obtain ⟨operand, _, hOperand, rfl, rfl⟩ := hRead
    obtain ⟨passed, hPassed, hIn, -⟩ := hExpr (hToken.ends hEnds) hOperand
    exact ⟨_, hToken.append hPassed, .prefixed hOp hIn⟩
  | none =>
    simp only [hOp] at hRead
    exact absurd hRead throw_ne_ok

theorem readGrouped_sound (hExpr : SoundReader expr) {c c' : Cursor} {e : Expr}
    (hEnds : c.Ends) (hKind : c.kind = .openParen) (hRead : readGrouped expr c = .ok e c') :
    ∃ passed, c.Passes passed c' ∧ ExprIn .unary passed e := by
  simp only [readGrouped, bind_eq_ok, next_eq_ok, expect_eq_ok, pure_eq_ok] at hRead
  obtain ⟨token, _, ⟨rfl, rfl⟩, inner, c₁, hInner, closing, _, ⟨hClose, rfl, rfl⟩, rfl, rfl⟩ :=
    hRead
  have hToken := Cursor.passes_advance hEnds (by rw [hKind]; decide)
  obtain ⟨passed, hPassed, hIn⟩ := hExpr.lowest (hToken.ends hEnds) hInner
  have hClosing := Cursor.passes_advance (hPassed.ends (hToken.ends hEnds)) (by rw [hClose]; decide)
  exact ⟨_, hToken.append (hPassed.append hClosing), .grouped hKind hIn hClose⟩

theorem readOperand_sound (hExpr : SoundReader expr) (steps : Nat) :
    Sound (readOperand expr steps .standard) (ExprIn .unary) := by
  intro c c' e hEnds hRead
  simp only [readOperand, bind_eq_ok, kind_eq_ok] at hRead
  obtain ⟨k, _, ⟨rfl, rfl⟩, hRead⟩ := hRead
  cases hForm : Tables.standard.operand? c.kind with
  | some form =>
    simp only [hForm] at hRead
    have hKind := Tables.standard_operand?_ne_eof hForm
    cases form with
    | primary => exact readPrimary_sound hExpr steps hEnds hKind hRead
    | prefixed => exact readPrefixed_sound hExpr hEnds hKind hRead
    | grouped =>
      exact readGrouped_sound hExpr hEnds (Tables.standard_operand?_grouped hForm) hRead
  | none =>
    simp only [hForm] at hRead
    exact absurd hRead failFor_ne_ok

/-- An operator of a chain and its right operand go on with the chain. -/
theorem readBinary_sound (hExpr : SoundReader expr) {stratum : Stratum} {left e : Expr}
    {op : BinaryOp} {first : List Token} {c c' : Cursor} (hEnds : c.Ends)
    (hOp : stratum.operator? c.kind = some op) (hLeft : ExprIn stratum first left)
    (hRead : readBinary expr stratum.power left c = .ok e c') :
    ∃ passed, c.Passes (c.current :: passed) c' ∧ ExprIn stratum (first ++ c.current :: passed) e ∧
      Tables.standard.power c'.kind ≤ stratum.power := by
  obtain ⟨-, hBinary, -, hEof, -⟩ := Stratum.operator?_eq_some hOp
  simp only [readBinary, bind_eq_ok, next_eq_ok] at hRead
  obtain ⟨token, _, ⟨rfl, rfl⟩, hRead⟩ := hRead
  have hCurrent : BinaryOp.ofKind? c.current.kind = some op := hBinary
  simp only [hCurrent, bind_eq_ok, pure_eq_ok] at hRead
  obtain ⟨right, _, hRight, rfl, rfl⟩ := hRead
  have hToken := Cursor.passes_advance hEnds hEof
  obtain ⟨tokens, hTokens, hRightIn, hAfter⟩ := hExpr (hToken.ends hEnds) hRight
  rw [Stratum.power_above] at hRightIn
  exact ⟨tokens, hToken.append hTokens, hLeft.extend hOp hRightIn, hAfter⟩

/-- The loop over the operators after an operand. What has been read so far is of a stratum above
the power, and the operator under the cursor does not bind more strongly than that stratum. -/
theorem readOperators_sound (hExpr : SoundReader expr) {power : Power} (steps : Nat)
    {stratum : Stratum} {left e : Expr} {first : List Token} {c₀ c c' : Cursor} (hEnds : c₀.Ends)
    (hFirst : c₀.Passes first c) (hLeft : ExprIn stratum first left)
    (hAbove : power.above.power.rank ≤ stratum.power.rank)
    (hNext : Tables.standard.power c.kind ≤ stratum.power)
    (hRead : readOperators .standard expr power steps left c = .ok e c') :
    ∃ passed, c₀.Passes passed c' ∧ ExprIn power.above passed e ∧
      Tables.standard.power c'.kind ≤ power := by
  -- The stratum of the left operand falls along the loop, so it is generalised with the operand.
  induction steps generalizing stratum left first c with
  | zero => exact absurd hRead exhausted_ne_ok
  | succ steps ih =>
    simp only [readOperators, bind_eq_ok, kind_eq_ok] at hRead
    obtain ⟨k, _, ⟨rfl, rfl⟩, hRead⟩ := hRead
    split at hRead
    · next hStop =>
      simp only [pure_eq_ok] at hRead
      obtain ⟨rfl, rfl⟩ := hRead
      exact ⟨first, hFirst, hLeft.weaken _ hAbove, hStop⟩
    · next hGo =>
      obtain ⟨chain, op, -, hPower, hOp⟩ : ∃ chain op, chain ≠ Stratum.unary ∧
          Tables.standard.power c.kind = chain.power ∧ chain.operator? c.kind = some op := by
        refine (Tables.standard_power c.kind).resolve_left fun hLowest => hGo ?_
        rw [hLowest]
        exact Nat.zero_le _
      rw [hPower] at hNext hGo hRead
      obtain ⟨extended, c₂, hExtended, hRead⟩ := bind_eq_ok.mp hRead
      obtain ⟨tokens, hTokens, hIn, hAfter⟩ :=
        readBinary_sound hExpr (hFirst.ends hEnds) hOp (hLeft.weaken chain hNext) hExtended
      exact ih (hFirst.append hTokens) hIn (Power.rank_above_le hGo) hAfter hRead

theorem reader_sound (steps : Nat) : SoundReader (reader .standard steps) := by
  induction steps with
  | zero => exact fun _ hRead => absurd hRead exhausted_ne_ok
  | succ steps ih =>
    intro power c c' e hEnds hRead
    simp only [reader, bind_eq_ok] at hRead
    obtain ⟨left, c₁, hOperand, hRead⟩ := hRead
    obtain ⟨first, hFirst, hLeft⟩ := readOperand_sound ih steps hEnds hOperand
    exact readOperators_sound ih steps hEnds hFirst hLeft power.above.rank_le
      (Power.le_unary _) hRead

/-! ## Completeness -/

/-- The kinds of tokens at which an expression of the given power ends. A parenthesis does not end
an expression, since it makes a call of a name before it. -/
def Follows (power : Power) (kind : Kind) : Prop :=
  Tables.standard.power kind ≤ power ∧ kind ≠ .openParen

/-- Expressions of fewer tokens than the bound are read at every power that they allow. -/
def CompleteReader (expr : Power → Reader Expr) (bound : Nat) : Prop :=
  ∀ power, Complete (expr power) (ExprIn power.above) bound (Follows power)

theorem readOperand_complete {bound : Nat} (hExpr : CompleteReader expr bound) :
    Complete (readOperand expr bound .standard) (ExprIn .unary) (bound + 1) (· ≠ .openParen) := by
  intro c c' tokens e hIn hBound hPassed hFollow
  simp only [readOperand, bind_eq_ok, kind_eq_ok]
  refine ⟨c.kind, c, ⟨rfl, rfl⟩, ?_⟩
  cases hIn with
  | chain hUnary _ _ => exact absurd rfl hUnary
  | @prefixed token tokens op operand hOp hOperand =>
    obtain ⟨hCurrent, -, hRest⟩ := hPassed.uncons
    rw [List.length_cons] at hBound
    rw [hPassed.kind_eq, Tables.standard_operand?_prefixed hOp]
    simp only [readForm, readPrefixed, bind_eq_ok, next_eq_ok]
    refine ⟨token, _, ⟨hCurrent, rfl⟩, ?_⟩
    simp only [hOp, bind_eq_ok, pure_eq_ok]
    have hRead := hExpr .unary hOperand (by omega) hRest ⟨Power.le_unary _, hFollow⟩
    exact ⟨operand, c', hRead, rfl, rfl⟩
  | @literal token value hLiteral =>
    obtain ⟨hCurrent, -, hRest⟩ := hPassed.uncons
    obtain ⟨hOperand, hName⟩ := hLiteral.operand?
    rw [hPassed.kind_eq, hOperand]
    simp only [readForm, readPrimary, bind_eq_ok, next_eq_ok]
    refine ⟨token, _, ⟨hCurrent, rfl⟩, ?_⟩
    rw [if_neg hName]
    simp only [Literal.ofToken_eq_ok.mpr hLiteral, pure_eq_ok]
    exact ⟨trivial, hRest.nil⟩
  | @symbol token hName =>
    obtain ⟨hCurrent, -, hRest⟩ := hPassed.uncons
    rw [hPassed.kind_eq, hName]
    simp only [Tables.standard, readForm, readPrimary, bind_eq_ok, next_eq_ok]
    refine ⟨token, _, ⟨hCurrent, rfl⟩, ?_⟩
    rw [if_pos hName]
    simp only [bind_eq_ok, kind_eq_ok]
    refine ⟨_, _, ⟨rfl, rfl⟩, ?_⟩
    rw [hRest.nil, if_neg hFollow]
    rfl
  | @call token tokens arguments hName hArguments =>
    obtain ⟨hCurrent, -, hRest⟩ := hPassed.uncons
    rw [List.length_cons] at hBound
    rw [hPassed.kind_eq, hName]
    simp only [Tables.standard, readForm, readPrimary, bind_eq_ok, next_eq_ok]
    refine ⟨token, _, ⟨hCurrent, rfl⟩, ?_⟩
    rw [if_pos hName]
    simp only [bind_eq_ok, kind_eq_ok]
    refine ⟨_, _, ⟨rfl, rfl⟩, ?_⟩
    have hOpen : c.advance.kind = .openParen := by
      cases hArguments with
      | none hOpen _ => exact hRest.kind_eq.trans hOpen
      | some hOpen _ _ => exact hRest.kind_eq.trans hOpen
    rw [if_pos hOpen]
    simp only [readCall, bind_eq_ok, pure_eq_ok]
    refine ⟨arguments, c', ?_, rfl, rfl⟩
    refine parenthesised_complete (Follows .lowest) (hExpr .lowest) ⟨by decide, by decide⟩
      ⟨by decide, by decide⟩ ?_ hArguments (by omega) hRest trivial
    intro tokens e hIn
    obtain ⟨token, others, rfl, hOperand⟩ := hIn.head
    exact ⟨token, others, rfl, fun hClose => hOperand (by rw [hClose]; rfl)⟩
  | @grouped opening closing tokens e hOpen hInner hClose =>
    obtain ⟨hCurrent, -, hRest⟩ := hPassed.uncons
    obtain ⟨c₁, hTokens, hEnd⟩ := hRest.split
    obtain ⟨hLast, -, hDone⟩ := hEnd.uncons
    have hKind : c₁.kind = .closeParen := hEnd.kind_eq.trans hClose
    simp only [List.length_cons, List.length_append] at hBound
    rw [hPassed.kind_eq, hOpen]
    simp only [Tables.standard, readForm, readGrouped, bind_eq_ok, next_eq_ok, expect_eq_ok,
      pure_eq_ok]
    exact ⟨opening, _, ⟨hCurrent, rfl⟩, e, c₁,
      hExpr .lowest hInner (by omega) hTokens (by rw [hKind]; exact ⟨by decide, by decide⟩),
      closing, _, ⟨hKind, hLast, rfl⟩, rfl, hDone.nil⟩

/-- One operator and its right operand are read and the loop goes on. -/
theorem readOperators_step {bound steps : Nat} (hExpr : CompleteReader expr bound) {power : Power}
    {stratum : Stratum} {left right : Expr} {op : BinaryOp} {token : Token} {tokens : List Token}
    {c c' : Cursor} (hAbove : ¬ stratum.power ≤ power)
    (hOp : stratum.operator? token.kind = some op) (hRight : ExprIn stratum.operand tokens right)
    (hBound : tokens.length < bound) (hPassed : c.Passes (token :: tokens) c')
    (hFollow : Follows stratum.power c'.kind) :
    readOperators .standard expr power (steps + 1) left c =
      readOperators .standard expr power steps (.binary op left right ⟨token.line, none⟩) c' := by
  obtain ⟨hPower, hBinary, -⟩ := Stratum.operator?_eq_some hOp
  obtain ⟨hCurrent, -, hRest⟩ := hPassed.uncons
  have hKind : kind c = .ok token.kind c := kind_eq_ok.mpr ⟨hPassed.kind_eq, rfl⟩
  rw [readOperators, bind_of_eq_ok hKind, hPower]
  simp only [if_neg hAbove]
  refine bind_of_eq_ok ?_
  simp only [readBinary, bind_eq_ok, next_eq_ok]
  refine ⟨token, _, ⟨hCurrent, rfl⟩, ?_⟩
  simp only [hBinary, bind_eq_ok, pure_eq_ok]
  exact ⟨right, c', hExpr _ (stratum.power_above ▸ hRight) hBound hRest hFollow, rfl, rfl⟩

/-- The loop reads a chain to its end and goes on there. -/
theorem readOperators_chain {bound : Nat} (hExpr : CompleteReader expr bound) {power : Power}
    {stratum : Stratum} (hAbove : ¬ stratum.power ≤ power) (steps : Nat) {left tree : Expr}
    {tokens : List Token} {c c' : Cursor} :
    ChainIn stratum left tokens tree → tokens.length ≤ bound → tokens.length ≤ steps →
      c.Passes tokens c' → Follows stratum.power c'.kind →
      ∃ others, steps ≤ others + tokens.length ∧
        readOperators .standard expr power steps left c =
          readOperators .standard expr power others tree c'
  | .nil, _, _, hPassed, _ => ⟨steps, Nat.le_refl _, by rw [hPassed.nil]⟩
  | @ChainIn.cons _ token tokens others op left right tree hOp hRight hRest, hBound, hSteps,
      hPassed, hFollow => by
    obtain ⟨steps, rfl⟩ : ∃ n, steps = n + 1 := ⟨steps - 1, by simp at hSteps; omega⟩
    rw [← List.cons_append] at hPassed
    obtain ⟨c₁, hFirst, hOthers⟩ := hPassed.split
    simp only [List.length_cons, List.length_append] at hBound hSteps ⊢
    have hBetween : Follows stratum.power c₁.kind := by
      cases hRest with
      | nil => rwa [hOthers.nil]
      | cons hNext _ _ =>
        obtain ⟨hPower, -, -, -, hOpen⟩ := Stratum.operator?_eq_some hNext
        rw [hOthers.kind_eq]
        exact ⟨hPower ▸ Nat.le_refl _, hOpen⟩
    obtain ⟨remaining, hRemaining, hRead⟩ :=
      readOperators_chain hExpr hAbove steps hRest (by omega) (by omega) hOthers hFollow
    refine ⟨remaining, by omega, ?_⟩
    rw [readOperators_step hExpr hAbove hOp hRight (by omega) hFirst hBetween, hRead]

/-- The reader reads an expression of a stratum above its power and goes on with the operators after
it. -/
theorem reader_stratum {bound : Nat} (hExpr : CompleteReader (reader .standard bound) bound)
    (power : Power) {stratum : Stratum} {tokens : List Token} {e : Expr} {c c' : Cursor}
    (hIn : ExprIn stratum tokens e) (hAbove : power.above.power.rank ≤ stratum.power.rank)
    (hBound : tokens.length ≤ bound) (hPassed : c.Passes tokens c')
    (hFollow : Follows stratum.power c'.kind) :
    ∃ remaining, bound < remaining + tokens.length ∧
      reader .standard (bound + 1) power c =
        readOperators .standard (reader .standard bound) power remaining e c' := by
  by_cases hUnary : stratum = .unary
  · subst hUnary
    refine ⟨bound, by have := hIn.length_pos; omega, ?_⟩
    rw [reader]
    exact bind_of_eq_ok (readOperand_complete hExpr hIn (by omega) hPassed hFollow.2)
  · cases hIn with
    | @chain _ first others left _ _ hFirst hChain =>
      have hOperand := Stratum.rank_operand hUnary
      rw [List.length_append] at hBound ⊢
      obtain ⟨c₁, hFirstPassed, hOthers⟩ := hPassed.split
      -- The first operand ends at an operator of the chain or where the chain itself ends.
      have hBetween : Follows stratum.operand.power c₁.kind := by
        cases hChain with
        | nil =>
          rw [hOthers.nil]
          exact ⟨Nat.le_trans hFollow.1 (by omega), hFollow.2⟩
        | cons hNext _ _ =>
          obtain ⟨hPower, -, -, -, hOpen⟩ := Stratum.operator?_eq_some hNext
          rw [hOthers.kind_eq]
          exact ⟨hPower ▸ Nat.le_of_lt (by omega), hOpen⟩
      obtain ⟨between, hLess, hReadFirst⟩ :=
        reader_stratum hExpr power hFirst (by omega) (by omega) hFirstPassed hBetween
      obtain ⟨remaining, hRemaining, hReadChain⟩ := readOperators_chain hExpr
        (Power.not_le_of_rank_above_le hAbove hUnary) between hChain (by omega) (by omega) hOthers
        hFollow
      exact ⟨remaining, by omega, hReadFirst.trans hReadChain⟩
    | _ => exact absurd rfl hUnary
termination_by Stratum.unary.power.rank - stratum.power.rank
decreasing_by
  have := stratum.operand.rank_le
  omega

/-- Expressions are read to their end if there are more steps than tokens. -/
theorem reader_complete (bound : Nat) : CompleteReader (reader .standard bound) bound := by
  induction bound with
  | zero => exact fun _ _ _ _ _ _ hBound => absurd hBound (Nat.not_lt_zero _)
  | succ bound ih =>
    intro power c c' tokens e hIn hBound hPassed hFollow
    have hStratum : Follows power.above.power c'.kind :=
      ⟨Nat.le_trans hFollow.1 (Power.rank_le_above power), hFollow.2⟩
    obtain ⟨remaining, hRemaining, hRead⟩ :=
      reader_stratum ih power hIn (Nat.le_refl _) (by omega) hPassed hStratum
    obtain ⟨remaining, rfl⟩ : ∃ n, remaining = n + 1 := ⟨remaining - 1, by omega⟩
    rw [hRead, readOperators, bind_of_eq_ok (kind_eq_ok.mpr ⟨rfl, rfl⟩)]
    simp only [if_pos hFollow.1]
    rfl

end Expr

end Jingle.Syntax

import Jingle.Proofs.Grammar.Program
import Jingle.Proofs.Grammar.Settled
import Jingle.Proofs.Syntax.Printer
import Jingle.Proofs.Syntax.Tree
import Mathlib.Data.List.Forall2

/-!
# Powers of operators

The powers of operators can be changed, and any kind of token can be given one. Whatever the powers
are, an expression without parentheses is read to the tree that the powers demand: the operator of a
left operand binds at least as strongly as the operator after it, and the operator of a right
operand binds more strongly than the operator before it.

* `Tables.register` changes the powers of kinds of tokens.
* `Expr.Demanded` says which tree the powers demand.
* `Expr.reader_demandedReader` says that the tree that is read is demanded, and
  `Expr.reader_readsDemanded` that a tree that is demanded is read.
-/

namespace Jingle.Grammar

open Token (Kind)

namespace Tables

/-- Tables with new entries for operators between two operands, made one after another. -/
def register (tables : Tables) (entries : List (Kind × Power)) : Tables :=
  entries.foldl (fun tables entry => tables.setPower entry.1 entry.2) tables

/-- Only the powers change. -/
theorem operand?_register (tables : Tables) (entries : List (Kind × Power)) :
    (tables.register entries).operand? = tables.operand? := by
  induction entries generalizing tables with
  | nil => rfl
  | cons entry entries ih => exact ih (tables.setPower entry.1 entry.2)

end Tables

namespace Cursor

/-- There is no opening parenthesis from the cursor on. -/
def Bare (c : Cursor) : Prop :=
  ∀ token ∈ c.tokens, token.kind ≠ .openParen

theorem Bare.kind_ne {c : Cursor} (h : c.Bare) : c.kind ≠ .openParen :=
  h c.current List.mem_cons_self

/-- There is no opening parenthesis before any place of a list without one. -/
theorem Leads.bare {tokens : List Token} (hTokens : ∀ token ∈ tokens, token.kind ≠ .openParen)
    {c : Cursor} (h : (ofTokens tokens).Leads c) : c.Bare := by
  intro token hMem
  rcases h.mem hMem with hMem | hEof
  · exact hTokens token hMem
  · rw [hEof]
    decide

theorem Passes.bare {c c' : Cursor} {passed : List Token} (h : c.Passes passed c')
    (hBare : c.Bare) : c'.Bare := by
  intro token hMem
  apply hBare
  rw [h.1]
  exact List.mem_append_right _ hMem

theorem Bare.advance {c : Cursor} (h : c.Bare) : c.advance.Bare := by
  obtain ⟨current, rest⟩ := c
  cases rest with
  | nil => exact h
  | cons next rest => exact fun token hMem => h token (List.mem_cons_of_mem _ hMem)

/-- Past the first of the passed tokens there is one token less before the cursor. -/
theorem Passes.rest_advance {c c' : Cursor} {token : Token} {passed : List Token}
    (h : c.Passes (token :: passed) c') : c.rest.length = c.advance.rest.length + 1 := by
  have hLength := h.length_eq
  have hAdvance := h.uncons.2.2.length_eq
  rw [List.length_cons] at hLength
  omega

end Cursor

end Jingle.Grammar

namespace Jingle.Syntax

open Grammar Grammar.Reader
open Token (Kind)

/-! ## Trees and powers -/

theorem BinaryOp.kind_of_ofKind? {kind : Kind} {op : BinaryOp}
    (h : BinaryOp.ofKind? kind = some op) : op.kind = kind := by
  cases kind <;> cases h <;> rfl

/-- The power of the operator between the two operands of an expression, if there is one. -/
def Expr.power? (tables : Tables) : Expr → Option Power
  | .binary op _ _ _ => some (tables.power op.kind)
  | _ => none

/-- The operator of a left operand binds at least as strongly, and the operator of a right operand
more strongly. An operator before an operand binds most strongly. -/
def Node.Ordered (tables : Tables) : Node → Prop
  | .expr (.binary op left right _) =>
    (∀ p ∈ left.power? tables, (tables.power op.kind).rank ≤ p.rank) ∧
      ∀ p ∈ right.power? tables, (tables.power op.kind).rank < p.rank
  | .expr (.unary _ operand _) => operand.power? tables = none
  | _ => True

mutual

/-- The leaves and the operators of an expression from left to right, each as the node that it
stands for. -/
def Expr.inorder : Expr → List Expr
  | e@(.literal ..) | e@(.symbol ..) => [e]
  | e@(.binary _ left right _) => left.inorder ++ e :: right.inorder
  | e@(.unary _ operand _) => e :: operand.inorder
  | e@(.call _ arguments _) => e :: Expr.inorders arguments

def Expr.inorders : List Expr → List Expr
  | [] => []
  | e :: exprs => e.inorder ++ Expr.inorders exprs

end

/-- A leaf or an operator, given as the node that it stands for, is what a token denotes. -/
def Expr.Stands (token : Token) : Expr → Prop
  | .literal value info => Literal.ofToken token = .ok value ∧ info = ⟨token.line, none⟩
  | .binary op _ _ info => BinaryOp.ofKind? token.kind = some op ∧ info = ⟨token.line, none⟩
  | .unary op _ info => UnaryOp.ofKind? token.kind = some op ∧ info = ⟨token.line, none⟩
  | .symbol location info =>
    token.kind = .identifier ∧ location = ⟨⟨token.line, none⟩, token.value⟩ ∧
      info = ⟨token.line, none⟩
  | .call .. => False

/-- The tokens from a cursor up to another one are the leaves and operators of an expression, and
its operators are where the powers demand it. -/
structure Expr.Ordered (tables : Tables) (c : Cursor) (e : Expr) (c' : Cursor) : Prop where
  nodes : e.All (Node.Ordered tables)
  tokens : ∃ passed, c.Passes passed c' ∧ List.Forall₂ Expr.Stands passed e.inorder

/-- What the powers demand of an expression that is read at a power from a cursor up to another
one. -/
structure Expr.Demanded (tables : Tables) (power : Power) (c : Cursor) (e : Expr) (c' : Cursor) :
    Prop extends Expr.Ordered tables c e c' where
  /-- The next token does not bind more strongly. -/
  follow : tables.power c'.kind ≤ power
  /-- The operator of the expression does. -/
  root : ∀ p ∈ e.power? tables, power.rank < p.rank

namespace Expr

/-! ## What is read -/

section Read

variable {tables : Tables} {expr : Power → Reader Expr} {c c' : Cursor} {e : Expr}

/-- Whatever is read at a power is what the powers demand. -/
def DemandedReader (tables : Tables) (expr : Power → Reader Expr) : Prop :=
  ∀ {power : Power} {c c' : Cursor} {e : Expr}, c.Ends → c.Bare → expr power c = .ok e c' →
    Demanded tables power c e c'

/-- Nothing binds more strongly than an operator before an operand. -/
theorem Demanded.power?_eq_none (h : Demanded tables .unary c e c') : e.power? tables = none := by
  cases hPower : e.power? tables with
  | none => rfl
  | some p =>
    have hLess := h.root p hPower
    have hLe : p.rank ≤ Power.unary.rank := p.le_unary
    omega

/-- One token makes a leaf. -/
theorem ordered_leaf (hToken : c.Passes [c.current] c') (hNodes : e.All (Node.Ordered tables))
    (hLeaf : e.inorder = [e]) (hStands : e.Stands c.current) : Ordered tables c e c' := by
  refine ⟨hNodes, [c.current], hToken, ?_⟩
  rw [hLeaf]
  exact .cons hStands .nil

theorem readPrimary_ordered {steps : Nat} (hEnds : c.Ends) (hBare : c.Bare) (hKind : c.kind ≠ .eof)
    (hRead : readPrimary expr steps c = .ok e c') :
    Ordered tables c e c' ∧ e.power? tables = none := by
  simp only [readPrimary, bind_eq_ok, next_eq_ok] at hRead
  obtain ⟨token, _, ⟨rfl, rfl⟩, hRead⟩ := hRead
  have hToken := Cursor.passes_advance hEnds hKind
  split at hRead
  · next hName =>
    simp only [bind_eq_ok, kind_eq_ok] at hRead
    obtain ⟨k, _, ⟨rfl, rfl⟩, hRead⟩ := hRead
    rw [if_neg (hToken.bare hBare).kind_ne, pure_eq_ok] at hRead
    obtain ⟨rfl, rfl⟩ := hRead
    exact ⟨ordered_leaf hToken ⟨trivial, trivial⟩ rfl ⟨hName, rfl, rfl⟩, rfl⟩
  · cases hValue : Literal.ofToken c.current with
    | ok value =>
      simp only [hValue, pure_eq_ok] at hRead
      obtain ⟨rfl, rfl⟩ := hRead
      exact ⟨ordered_leaf hToken trivial rfl ⟨hValue, rfl⟩, rfl⟩
    | error cause =>
      simp only [hValue] at hRead
      exact absurd hRead throw_ne_ok

theorem readPrefixed_ordered (hExpr : DemandedReader tables expr) (hEnds : c.Ends) (hBare : c.Bare)
    (hKind : c.kind ≠ .eof) (hRead : readPrefixed expr c = .ok e c') :
    Ordered tables c e c' ∧ e.power? tables = none := by
  simp only [readPrefixed, bind_eq_ok, next_eq_ok] at hRead
  obtain ⟨token, _, ⟨rfl, rfl⟩, hRead⟩ := hRead
  have hToken := Cursor.passes_advance hEnds hKind
  cases hOp : UnaryOp.ofKind? c.current.kind with
  | some op =>
    simp only [hOp, bind_eq_ok, pure_eq_ok] at hRead
    obtain ⟨operand, _, hOperand, rfl, rfl⟩ := hRead
    have hDemanded := hExpr (hToken.ends hEnds) (hToken.bare hBare) hOperand
    obtain ⟨passed, hPassed, hStands⟩ := hDemanded.tokens
    refine ⟨⟨⟨hDemanded.power?_eq_none, hDemanded.nodes⟩, _, hToken.append hPassed, ?_⟩, rfl⟩
    exact .cons ⟨hOp, rfl⟩ hStands
  | none =>
    simp only [hOp] at hRead
    exact absurd hRead throw_ne_ok

theorem readOperand_ordered (hOperands : tables.operand? = Tables.standard.operand?)
    (hExpr : DemandedReader tables expr) {steps : Nat} (hEnds : c.Ends) (hBare : c.Bare)
    (hRead : readOperand expr steps tables c = .ok e c') :
    Ordered tables c e c' ∧ e.power? tables = none := by
  simp only [readOperand, hOperands, bind_eq_ok, kind_eq_ok] at hRead
  obtain ⟨k, _, ⟨rfl, rfl⟩, hRead⟩ := hRead
  cases hForm : Tables.standard.operand? c.kind with
  | some form =>
    simp only [hForm] at hRead
    have hKind := Tables.standard_operand?_ne_eof hForm
    cases form with
    | primary => exact readPrimary_ordered hEnds hBare hKind hRead
    | prefixed => exact readPrefixed_ordered hExpr hEnds hBare hKind hRead
    | grouped => exact absurd (Tables.standard_operand?_grouped hForm) hBare.kind_ne
  | none =>
    simp only [hForm] at hRead
    exact absurd hRead failFor_ne_ok

/-- An operator that binds no more strongly than the one in its left operand, and its right operand.
The operator after them binds no more strongly than they do. -/
theorem readBinary_ordered (hExpr : DemandedReader tables expr) {c₀ : Cursor} {left : Expr}
    (hEnds : c.Ends) (hBare : c.Bare) (hLeft : Ordered tables c₀ left c)
    (hNext : ∀ p ∈ left.power? tables, (tables.power c.kind).rank ≤ p.rank)
    (hRead : readBinary expr (tables.power c.kind) left c = .ok e c') :
    Ordered tables c₀ e c' ∧ e.power? tables = some (tables.power c.kind) ∧
      tables.power c'.kind ≤ tables.power c.kind := by
  simp only [readBinary, bind_eq_ok, next_eq_ok] at hRead
  obtain ⟨token, _, ⟨rfl, rfl⟩, hRead⟩ := hRead
  cases hOp : BinaryOp.ofKind? c.current.kind with
  | some op =>
    simp only [hOp, bind_eq_ok, pure_eq_ok] at hRead
    obtain ⟨right, _, hRight, rfl, rfl⟩ := hRead
    have hKind : op.kind = c.kind := BinaryOp.kind_of_ofKind? hOp
    have hEof : c.kind ≠ .eof := by
      rw [← hKind]
      cases op <;> decide
    have hToken := Cursor.passes_advance hEnds hEof
    have hDemanded := hExpr (hToken.ends hEnds) (hToken.bare hBare) hRight
    obtain ⟨first, hFirst, hFirstStands⟩ := hLeft.tokens
    obtain ⟨second, hSecond, hSecondStands⟩ := hDemanded.tokens
    rw [← hKind] at hNext hDemanded ⊢
    refine ⟨⟨⟨⟨hNext, hDemanded.root⟩, hLeft.nodes, hDemanded.nodes⟩, _,
      hFirst.append (hToken.append hSecond), ?_⟩, rfl, hDemanded.follow⟩
    exact List.rel_append hFirstStands (.cons ⟨hOp, rfl⟩ hSecondStands)
  | none =>
    simp only [hOp] at hRead
    exact absurd hRead throw_ne_ok

/-- The loop over the operators after an operand. What has been read so far binds more strongly than
the power, and the operator under the cursor binds no more strongly than it. -/
theorem readOperators_demanded (hExpr : DemandedReader tables expr) {power : Power} {steps : Nat}
    {c₀ : Cursor} {left : Expr} (hEnds : c₀.Ends) (hBare : c₀.Bare)
    (hLeft : Ordered tables c₀ left c) (hRoot : ∀ p ∈ left.power? tables, power.rank < p.rank)
    (hNext : ∀ p ∈ left.power? tables, (tables.power c.kind).rank ≤ p.rank)
    (hRead : readOperators tables expr power steps left c = .ok e c') :
    Demanded tables power c₀ e c' := by
  induction steps generalizing left c with
  | zero => exact absurd hRead exhausted_ne_ok
  | succ steps ih =>
    simp only [readOperators, bind_eq_ok, kind_eq_ok] at hRead
    obtain ⟨k, _, ⟨rfl, rfl⟩, hRead⟩ := hRead
    by_cases hStop : tables.power c.kind ≤ power
    · rw [if_pos hStop, pure_eq_ok] at hRead
      obtain ⟨rfl, rfl⟩ := hRead
      exact ⟨hLeft, hStop, hRoot⟩
    · rw [if_neg hStop, bind_eq_ok] at hRead
      obtain ⟨extended, c₁, hBinary, hRead⟩ := hRead
      obtain ⟨passed, hPassed, -⟩ := hLeft.tokens
      obtain ⟨hExtended, hPower, hAfter⟩ := readBinary_ordered hExpr (hPassed.ends hEnds)
        (hPassed.bare hBare) hLeft hNext hBinary
      refine ih hExtended ?_ ?_ hRead
      · intro p hp
        obtain rfl := Option.some.inj (hPower.symm.trans hp)
        exact Nat.lt_of_not_le hStop
      · intro p hp
        obtain rfl := Option.some.inj (hPower.symm.trans hp)
        exact hAfter

theorem reader_demandedReader (hOperands : tables.operand? = Tables.standard.operand?)
    (steps : Nat) : DemandedReader tables (reader tables steps) := by
  induction steps with
  | zero => exact fun _ _ hRead => absurd hRead exhausted_ne_ok
  | succ steps ih =>
    intro power c c' e hEnds hBare hRead
    simp only [reader, bind_eq_ok] at hRead
    obtain ⟨left, c₁, hOperand, hRead⟩ := hRead
    obtain ⟨hLeft, hAtomic⟩ := readOperand_ordered hOperands ih hEnds hBare hOperand
    refine readOperators_demanded ih hEnds hBare hLeft ?_ ?_ hRead <;>
      exact fun p hp => by cases hAtomic.symm.trans hp

end Read

/-! ## What the powers demand -/

section Demanded

variable {tables : Tables} {c c' : Cursor}

/-- A leaf is one token. -/
theorem Ordered.of_leaf {e : Expr} (h : Ordered tables c e c') (hLeaf : e.inorder = [e]) :
    e.Stands c.current ∧ c.advance = c' ∧ c.rest.length = c'.rest.length + 1 := by
  obtain ⟨passed, hPassed, hStands⟩ := h.tokens
  rw [hLeaf] at hStands
  obtain ⟨token, others, hToken, hOthers, rfl⟩ := List.forall₂_cons_right_iff.mp hStands
  obtain rfl := List.forall₂_nil_right_iff.mp hOthers
  have hLength := hPassed.rest_advance
  obtain ⟨rfl, -, hRest⟩ := hPassed.uncons
  rw [hRest.nil] at hLength
  exact ⟨hToken, hRest.nil, hLength⟩

/-- An operator before an operand is a token before those of the operand. -/
theorem Ordered.of_unary {op : UnaryOp} {operand : Expr} {info : Info}
    (h : Ordered tables c (.unary op operand info) c') :
    (Expr.unary op operand info).Stands c.current ∧ Ordered tables c.advance operand c' ∧
      c.rest.length = c.advance.rest.length + 1 := by
  obtain ⟨passed, hPassed, hStands⟩ := h.tokens
  obtain ⟨token, others, hToken, hOthers, rfl⟩ := List.forall₂_cons_right_iff.mp hStands
  have hLength := hPassed.rest_advance
  obtain ⟨rfl, -, hRest⟩ := hPassed.uncons
  exact ⟨hToken, ⟨h.nodes.2, others, hRest, hOthers⟩, hLength⟩

/-- An operator between two operands is a token between those of the operands. -/
theorem Ordered.of_binary {op : BinaryOp} {left right : Expr} {info : Info}
    (h : Ordered tables c (.binary op left right info) c') :
    ∃ c₁, Ordered tables c left c₁ ∧ (Expr.binary op left right info).Stands c₁.current ∧
      Ordered tables c₁.advance right c' ∧ c₁.rest.length = c₁.advance.rest.length + 1 := by
  obtain ⟨passed, hPassed, hStands⟩ := h.tokens
  have hStands' : List.Forall₂ Stands passed
      (left.inorder ++ .binary op left right info :: right.inorder) := hStands
  have hFirst := List.forall₂_take_append _ _ _ hStands'
  have hSecond := List.forall₂_drop_append _ _ _ hStands'
  rw [← List.take_append_drop left.inorder.length passed] at hPassed
  obtain ⟨c₁, hPassed₁, hPassed₂⟩ := hPassed.split
  obtain ⟨token, others, hToken, hOthers, hDrop⟩ := List.forall₂_cons_right_iff.mp hSecond
  rw [hDrop] at hPassed₂
  have hLength := hPassed₂.rest_advance
  obtain ⟨rfl, -, hRest⟩ := hPassed₂.uncons
  exact ⟨c₁, ⟨h.nodes.2.1, _, hPassed₁, hFirst⟩, hToken, ⟨h.nodes.2.2, others, hRest, hOthers⟩,
    hLength⟩

theorem Ordered.length_le {e : Expr} (h : Ordered tables c e c') :
    c'.rest.length ≤ c.rest.length := by
  obtain ⟨passed, hPassed, -⟩ := h.tokens
  have hLength := hPassed.length_eq
  omega

theorem Ordered.bare {e : Expr} (h : Ordered tables c e c') (hBare : c.Bare) : c'.Bare := by
  obtain ⟨passed, hPassed, -⟩ := h.tokens
  exact hPassed.bare hBare

/-- What the powers demand is read if fewer tokens than the bound are left. -/
def ReadsDemanded (tables : Tables) (expr : Power → Reader Expr) (bound : Nat) : Prop :=
  ∀ {power : Power} {c c' : Cursor} {e : Expr}, c.Bare → c.rest.length < bound →
    Demanded tables power c e c' → expr power c = .ok e c'

variable {expr : Power → Reader Expr} {bound : Nat}

theorem readOperand_of_ordered (hOperands : tables.operand? = Tables.standard.operand?)
    (hExpr : ReadsDemanded tables expr bound) (hBare : c.Bare) (hBound : c.rest.length ≤ bound)
    (steps : Nat) {e : Expr} (h : Ordered tables c e c') (hAtomic : e.power? tables = none) :
    readOperand expr steps tables c = .ok e c' ∧ c'.rest.length < c.rest.length := by
  simp only [readOperand, hOperands, bind_eq_ok, kind_eq_ok]
  cases e with
  | literal value info =>
    obtain ⟨⟨hValue, rfl⟩, rfl, hLength⟩ := h.of_leaf rfl
    obtain ⟨hForm, hName⟩ := (Literal.ofToken_eq_ok.mp hValue).operand?
    refine ⟨⟨c.kind, c, ⟨rfl, rfl⟩, ?_⟩, by omega⟩
    rw [Cursor.kind, hForm]
    simp only [readForm, readPrimary, bind_eq_ok, next_eq_ok]
    refine ⟨c.current, _, ⟨rfl, rfl⟩, ?_⟩
    rw [if_neg hName]
    simp only [hValue, pure_eq_ok]
    exact ⟨trivial, trivial⟩
  | symbol location info =>
    obtain ⟨⟨hName, rfl, rfl⟩, rfl, hLength⟩ := h.of_leaf rfl
    refine ⟨⟨c.kind, c, ⟨rfl, rfl⟩, ?_⟩, by omega⟩
    rw [Cursor.kind, hName]
    simp only [Tables.standard, readForm, readPrimary, bind_eq_ok, next_eq_ok]
    refine ⟨c.current, _, ⟨rfl, rfl⟩, ?_⟩
    rw [if_pos hName]
    simp only [bind_eq_ok, kind_eq_ok]
    refine ⟨_, _, ⟨rfl, rfl⟩, ?_⟩
    rw [if_neg hBare.advance.kind_ne]
    rfl
  | unary op operand info =>
    obtain ⟨⟨hOp, rfl⟩, hOperand, hLength⟩ := h.of_unary
    have hDemanded : Demanded tables .unary c.advance operand c' := by
      refine ⟨hOperand, Power.le_unary _, fun p hp => ?_⟩
      cases h.nodes.1.symm.trans hp
    have hLe := hOperand.length_le
    refine ⟨⟨c.kind, c, ⟨rfl, rfl⟩, ?_⟩, by omega⟩
    rw [Cursor.kind, Tables.standard_operand?_prefixed hOp]
    simp only [readForm, readPrefixed, bind_eq_ok, next_eq_ok]
    refine ⟨c.current, _, ⟨rfl, rfl⟩, ?_⟩
    simp only [hOp, bind_eq_ok, pure_eq_ok]
    exact ⟨operand, c', hExpr hBare.advance (by omega) hDemanded, rfl, rfl⟩
  | binary op left right info => cases hAtomic
  | call callee arguments info =>
    obtain ⟨passed, -, hStands⟩ := h.tokens
    obtain ⟨token, others, hToken, -, -⟩ := List.forall₂_cons_right_iff.mp hStands
    exact absurd hToken not_false

/-- One operator and its right operand are read and the loop goes on. -/
theorem readOperators_of_demanded (hExpr : ReadsDemanded tables expr bound) {power : Power}
    {steps : Nat} {op : BinaryOp} {left right : Expr} (hBare : c.Bare)
    (hBound : c.advance.rest.length < bound) (hOp : BinaryOp.ofKind? c.current.kind = some op)
    (hAbove : power.rank < (tables.power c.kind).rank)
    (hRight : Demanded tables (tables.power c.kind) c.advance right c') :
    readOperators tables expr power (steps + 1) left c =
      readOperators tables expr power steps (.binary op left right ⟨c.current.line, none⟩) c' := by
  have hGo : ¬ tables.power c.kind ≤ power := Nat.not_le_of_lt hAbove
  rw [readOperators, bind_of_eq_ok (kind_eq_ok.mpr ⟨rfl, rfl⟩)]
  simp only [if_neg hGo]
  refine bind_of_eq_ok ?_
  simp only [readBinary, bind_eq_ok, next_eq_ok]
  refine ⟨c.current, _, ⟨rfl, rfl⟩, ?_⟩
  simp only [hOp, bind_eq_ok, pure_eq_ok]
  exact ⟨right, c', hExpr hBare.advance hBound hRight, rfl, rfl⟩

/-- The loop arrives at every tree that the powers demand, and has steps for the tokens after it. -/
theorem readOperators_of_ordered (hOperands : tables.operand? = Tables.standard.operand?)
    (hExpr : ReadsDemanded tables expr bound) {power : Power} {steps : Nat} :
    ∀ {c c' : Cursor} (e : Expr), c.Bare → c.rest.length ≤ bound → Ordered tables c e c' →
      (∀ p ∈ e.power? tables, power.rank < p.rank) →
      (∀ p ∈ e.power? tables, (tables.power c'.kind).rank ≤ p.rank) →
      ∃ remaining, c'.rest.length < remaining ∧
        (readOperand expr steps tables >>= readOperators tables expr power bound) c =
          readOperators tables expr power remaining e c'
  -- A tree is reached from its left operand, so the recursion is on that operand.
  | c, c', .binary op left right info, hBare, hBound, hOrdered, hRoot, hNext => by
    obtain ⟨⟨hLeftPower, hRightPower⟩, -, -⟩ := hOrdered.nodes
    obtain ⟨c₁, hLeft, ⟨hOp, rfl⟩, hRight, hLength⟩ := hOrdered.of_binary
    have hKind : op.kind = c₁.kind := BinaryOp.kind_of_ofKind? hOp
    rw [hKind] at hLeftPower hRightPower
    have hAbove : power.rank < (tables.power c₁.kind).rank := hKind ▸ hRoot _ rfl
    have hDemanded : Demanded tables (tables.power c₁.kind) c₁.advance right c' :=
      ⟨hRight, hKind ▸ hNext _ rfl, hRightPower⟩
    have hBefore := hLeft.length_le
    have hAfter := hRight.length_le
    obtain ⟨remaining, hRemaining, hRead⟩ := readOperators_of_ordered hOperands hExpr left hBare
      hBound hLeft (fun p hp => Nat.lt_of_lt_of_le hAbove (hLeftPower p hp)) hLeftPower
    obtain ⟨remaining, rfl⟩ : ∃ n, remaining = n + 1 := ⟨remaining - 1, by omega⟩
    refine ⟨remaining, by omega, hRead.trans ?_⟩
    exact readOperators_of_demanded hExpr (hLeft.bare hBare) (by omega) hOp hAbove hDemanded
  | c, c', .literal .., hBare, hBound, hOrdered, _, _
  | c, c', .symbol .., hBare, hBound, hOrdered, _, _
  | c, c', .unary .., hBare, hBound, hOrdered, _, _
  | c, c', .call .., hBare, hBound, hOrdered, _, _ => by
    obtain ⟨hRead, hLength⟩ :=
      readOperand_of_ordered hOperands hExpr hBare hBound steps hOrdered rfl
    exact ⟨bound, by omega, bind_of_eq_ok hRead⟩

theorem reader_readsDemanded (hOperands : tables.operand? = Tables.standard.operand?)
    (steps : Nat) : ReadsDemanded tables (reader tables steps) steps := by
  induction steps with
  | zero => exact fun _ hBound _ => absurd hBound (Nat.not_lt_zero _)
  | succ steps ih =>
    intro power c c' e hBare hBound h
    have hNext : ∀ p ∈ e.power? tables, (tables.power c'.kind).rank ≤ p.rank :=
      fun p hp => Nat.le_trans h.follow (Nat.le_of_lt (h.root p hp))
    obtain ⟨remaining, hRemaining, hRead⟩ := readOperators_of_ordered hOperands ih e hBare
      (by omega) h.toOrdered h.root hNext
    obtain ⟨remaining, rfl⟩ : ∃ n, remaining = n + 1 := ⟨remaining - 1, by omega⟩
    rw [reader, hRead, readOperators, bind_of_eq_ok (kind_eq_ok.mpr ⟨rfl, rfl⟩)]
    simp only [if_pos h.follow]
    rfl

end Demanded

/-- Whatever powers have been given to operators: from any place of a list without opening
parentheses, the tree that is read at a power is the one that the powers demand. If there are more
steps than tokens that are left, it is read whenever there is one. -/
theorem reader_demanded (entries : List (Kind × Power)) {tokens : List Token}
    (hTokens : ∀ token ∈ tokens, token.kind ≠ .openParen) {c : Cursor}
    (hPlace : (Cursor.ofTokens tokens).Leads c) (power : Power) (e : Expr) (c' : Cursor) :
    let tables := Tables.standard.register entries
    (∀ steps, reader tables steps power c = .ok e c' → Demanded tables power c e c') ∧
      ∀ steps, c.rest.length < steps → Demanded tables power c e c' →
        reader tables steps power c = .ok e c' := by
  intro tables
  have hOperands : tables.operand? = Tables.standard.operand? := Tables.operand?_register _ entries
  have hBare := hPlace.bare hTokens
  constructor
  · intro steps hRead
    exact reader_demandedReader hOperands steps hPlace.ends hBare hRead
  · intro steps hSteps hDemanded
    exact reader_readsDemanded hOperands steps hBare hSteps hDemanded

/-- With the powers of `*` and `-` turned round, `a * b - c;` is read as `a * (b - c)`. -/
theorem reader_demanded_turned :
    let token (kind : Kind) (value : String) : Token := ⟨kind, value, 0, 0, 1⟩
    let symbol (value : String) : Expr := .symbol ⟨⟨1, none⟩, value⟩ ⟨1, none⟩
    Demanded (Tables.standard.register [(.star, .additive), (.dash, .multiplicative)]) .lowest
      (.ofTokens [token .identifier "a", token .star "*", token .identifier "b", token .dash "-",
        token .identifier "c", token .semicolon ";"])
      (.binary .multiply (symbol "a")
        (.binary .subtract (symbol "b") (symbol "c") ⟨1, none⟩) ⟨1, none⟩)
      ⟨token .semicolon ";", [Token.endAt 0 1]⟩ := by
  intro token symbol
  exact (reader_demanded _ (by decide) (List.suffix_refl _) _ _ _).1 7 rfl

end Expr

end Jingle.Syntax

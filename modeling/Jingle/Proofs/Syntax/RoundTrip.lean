import Jingle.Proofs.Grammar.Program
import Jingle.Proofs.Number.Integer
import Jingle.Proofs.Syntax.Printer
import Jingle.Proofs.Token.Lexer

/-!
# Reading printed programs

A printed program is read back as the program, up to the lines of its nodes. The two halves of the
proof meet at the lexemes: the lexemes of a program are cut out of its text one by one, and tokens
with these lexemes make the program by the grammar.

* `Stmt.lexemesOf_valid` says that all lexemes of a program can be read back.
* `Stmt.readsOf` says that the grammar makes the program of tokens with its lexemes.
* `Block.parse_print` is the round trip.
-/

namespace Jingle.Syntax

open Grammar
open Token (Kind Lexeme)
open Token.Lexeme (AllValid allValid_nil allValid_cons allValid_append)

/-! ## Lexemes that can be read back -/

theorem Literal.lexeme_valid {value : Literal} (h : value.Writable) : value.lexeme.Valid := by
  cases value with
  | integer value =>
    obtain ⟨n, rfl⟩ := Int.eq_ofNat_of_zero_le h.1
    exact .integer n
  | float value => exact h.elim
  | char value => exact .char value
  | string value => exact .string value
  | bool value => exact .bool value

theorem BinaryOp.mark_valid (op : BinaryOp) : (Lexeme.mark op.kind).Valid :=
  .mark (by cases op <;> rfl)

theorem UnaryOp.mark_valid (op : UnaryOp) : (Lexeme.mark op.kind).Valid :=
  .mark (by cases op <;> rfl)

theorem enclosed_valid {lexemes : List Lexeme} (h : AllValid lexemes) (b : Bool) :
    AllValid (enclosed b lexemes) := by
  cases b with
  | false => exact h
  | true => simpa [enclosed] using ⟨.mark rfl, h, .mark rfl⟩

theorem braced_valid {lexemes : List Lexeme} (h : AllValid lexemes) :
    AllValid (braced lexemes) := by
  simpa [braced] using ⟨.mark rfl, h, .mark rfl⟩

theorem listed_valid {items : List (List Lexeme)} (h : ∀ item ∈ items, AllValid item) :
    AllValid (listed items) := by
  have hItems : AllValid ([.mark .comma].intercalate items) := by
    induction items with
    | nil => exact allValid_nil
    | cons item items ih =>
      obtain ⟨hItem, hOthers⟩ := List.forall_mem_cons.mp h
      cases items with
      | nil => simpa using hItem
      | cons next items => simpa [List.intercalate_cons_cons] using ⟨hItem, .mark rfl, ih hOthers⟩
  simpa [listed] using ⟨.mark rfl, hItems, .mark rfl⟩

mutual

theorem Expr.lexemes_valid : ∀ {e : Expr}, e.All Node.Writable → AllValid e.lexemes
  | .literal value _, h => by simpa [Expr.lexemes] using Literal.lexeme_valid h
  | .binary op left right _, ⟨_, hLeft, hRight⟩ => by
    simp only [Expr.lexemes, allValid_append, allValid_cons]
    exact ⟨enclosed_valid (Expr.lexemes_valid hLeft) _, op.mark_valid,
      enclosed_valid (Expr.lexemes_valid hRight) _⟩
  | .unary op operand _, ⟨_, hOperand⟩ => by
    simp only [Expr.lexemes, allValid_cons]
    exact ⟨op.mark_valid, enclosed_valid (Expr.lexemes_valid hOperand) _⟩
  | .symbol location _, ⟨_, hName⟩ => by simpa [Expr.lexemes] using Lexeme.Valid.name hName
  | .call callee arguments _, ⟨hName, hArguments⟩ => by
    simp only [Expr.lexemes, allValid_cons]
    exact ⟨.name hName, listed_valid (Expr.lexemesOf_valid hArguments)⟩

theorem Expr.lexemesOf_valid : ∀ {exprs : List Expr}, Expr.AllIn Node.Writable exprs →
    ∀ item ∈ Expr.lexemesOf exprs, AllValid item
  | [], _ => by simp [Expr.lexemesOf]
  | e :: exprs, ⟨hFirst, hOthers⟩ => by
    simp only [Expr.lexemesOf, List.forall_mem_cons]
    exact ⟨Expr.lexemes_valid hFirst, Expr.lexemesOf_valid hOthers⟩

end

theorem Parameter.lexemes_valid {parameter : Parameter} (h : parameter.All Node.Writable) :
    AllValid parameter.lexemes := by
  simpa [Parameter.lexemes] using ⟨.name h.1, .mark rfl, .name h.2⟩

/-- The lexemes at the end of a statement with a value. -/
theorem value_valid {value : Expr} (h : value.All Node.Writable) :
    AllValid (value.lexemes ++ [.mark .semicolon]) := by
  simpa using ⟨Expr.lexemes_valid h, .mark rfl⟩

mutual

theorem Stmt.lexemes_valid : ∀ {s : Stmt}, s.All Node.Writable → AllValid s.lexemes
  | .varDecl name typeName none _, ⟨hName, hType, _⟩ => by
    simpa [Stmt.lexemes] using
      ⟨.mark rfl, .name hName, .mark rfl, .name hType, .mark rfl⟩
  | .varDecl name typeName (some value) _, ⟨hName, hType, hValue⟩ => by
    simp only [Stmt.lexemes, allValid_cons]
    exact ⟨.mark rfl, .name hName, .mark rfl, .name hType, .mark rfl, value_valid (hValue _ rfl)⟩
  | .constDecl name value _, ⟨hName, hValue⟩ => by
    simp only [Stmt.lexemes, allValid_cons]
    exact ⟨.mark rfl, .name hName, .mark rfl, value_valid hValue⟩
  | .echo value _, ⟨_, hValue⟩ => by
    simp only [Stmt.lexemes, allValid_cons]
    exact ⟨.mark rfl, value_valid hValue⟩
  | .branch condition ⟨_, thenBody⟩ ⟨_, elseBody⟩ _, ⟨_, hCondition, hThen, hElse⟩ => by
    simp only [Stmt.lexemes, allValid_cons, allValid_append]
    refine ⟨.mark rfl, Expr.lexemes_valid hCondition, braced_valid (Stmt.lexemesOf_valid hThen), ?_⟩
    split
    · exact allValid_nil
    · exact allValid_cons.mpr ⟨.mark rfl, braced_valid (Stmt.lexemesOf_valid hElse)⟩
  | .loop condition ⟨_, body⟩ _, ⟨_, hCondition, hBody⟩ => by
    simp only [Stmt.lexemes, allValid_cons, allValid_append]
    exact ⟨.mark rfl, Expr.lexemes_valid hCondition, braced_valid (Stmt.lexemesOf_valid hBody)⟩
  | .assign target value _, ⟨_, hName, hValue⟩ => by
    simp only [Stmt.lexemes, allValid_cons]
    exact ⟨.name hName, .mark rfl, value_valid hValue⟩
  | .fnDecl name parameters returns ⟨_, body⟩ _, ⟨hName, hParameters, hReturns, hBody⟩ => by
    have hItems : ∀ item ∈ parameters.map Parameter.lexemes, AllValid item := by
      simp only [List.forall_mem_map]
      exact fun parameter hMem => Parameter.lexemes_valid (hParameters parameter hMem)
    simp only [Stmt.lexemes, allValid_cons, allValid_append]
    exact ⟨.mark rfl, .name hName, listed_valid hItems, .mark rfl, .name hReturns,
      braced_valid (Stmt.lexemesOf_valid hBody)⟩
  | .ret value _, ⟨_, hValue⟩ => by
    simp only [Stmt.lexemes, allValid_cons]
    exact ⟨.mark rfl, value_valid hValue⟩

theorem Stmt.lexemesOf_valid :
    ∀ {stmts : List Stmt}, Stmt.AllIn Node.Writable stmts → AllValid (Stmt.lexemesOf stmts)
  | [], _ => allValid_nil
  | _ :: _, ⟨hFirst, hOthers⟩ =>
    allValid_append.mpr ⟨Stmt.lexemes_valid hFirst, Stmt.lexemesOf_valid hOthers⟩

end

/-! ## Expressions that are read back -/

/-- All tokens with the given lexemes make a tree by the rule, the same up to lines. -/
def Reads {α : Type} (rule : List Token → α → Prop) (erase : α → α) (lexemes : List Lexeme)
    (a : α) : Prop :=
  ∀ tokens : List Token, tokens.map Token.lexeme = lexemes →
    ∃ a', rule tokens a' ∧ erase a' = erase a

/-- What a node is before checking, if it can be read back. -/
def Node.Printable (node : Node) : Prop :=
  node.ty = none ∧ node.Writable

theorem kind_of_mark {token : Token} {kind : Kind} (h : token.lexeme = .mark kind) :
    token.kind = kind :=
  congrArg Lexeme.kind h

theorem eq_of_name {token : Token} {name : String} (h : token.lexeme = .name name) :
    token.kind = .identifier ∧ token.value = name :=
  ⟨congrArg Lexeme.kind h, congrArg Lexeme.value h⟩

section Listed

variable {α : Type} {rule : List Token → α → Prop} {erase : α → α} {print : α → List Lexeme}

theorem separated_reads {a : α} {as : List α} (h : ∀ b ∈ a :: as, Reads rule erase (print b) b) :
    Reads (Separated rule) (List.map erase) ([.mark .comma].intercalate ((a :: as).map print))
      (a :: as) := by
  induction as generalizing a with
  | nil =>
    intro tokens hTokens
    rw [List.map_singleton, List.intercalate_singleton] at hTokens
    obtain ⟨a', hRule, hErase⟩ := h a (by simp) tokens hTokens
    exact ⟨[a'], .last hRule, by simp [hErase]⟩
  | cons b bs ih =>
    intro tokens hTokens
    rw [List.map_cons, List.map_cons, List.intercalate_cons_cons, List.append_assoc,
      List.singleton_append] at hTokens
    simp only [List.map_eq_append_iff, List.map_eq_cons_iff] at hTokens
    obtain ⟨first, _, rfl, hFirst, comma, others, rfl, hComma, hOthers⟩ := hTokens
    obtain ⟨hHead, hRest⟩ := List.forall_mem_cons.mp h
    obtain ⟨a', hRule, hErase⟩ := hHead first hFirst
    obtain ⟨as', hRules, hErases⟩ := ih hRest others hOthers
    exact ⟨a' :: as', .more hRule (kind_of_mark hComma) hRules, by simpa [hErase] using hErases⟩

theorem listed_reads {as : List α} (h : ∀ a ∈ as, Reads rule erase (print a) a) :
    Reads (Parenthesised rule) (List.map erase) (listed (as.map print)) as := by
  intro tokens hTokens
  simp only [listed, List.map_eq_cons_iff, List.map_eq_append_iff, List.map_eq_nil_iff] at hTokens
  obtain ⟨opening, _, rfl, hOpen, inner, _, rfl, hInner, closing, _, rfl, hClose, rfl⟩ := hTokens
  cases as with
  | nil =>
    obtain rfl := List.map_eq_nil_iff.mp hInner
    exact ⟨[], .none (kind_of_mark hOpen) (kind_of_mark hClose), rfl⟩
  | cons a as =>
    obtain ⟨as', hRules, hErase⟩ := separated_reads h inner hInner
    exact ⟨as', .some (kind_of_mark hOpen) hRules (kind_of_mark hClose), hErase⟩

end Listed

theorem Literal.literalIn_of_lexeme {value : Literal} (hValue : value.Writable) {token : Token}
    (h : token.lexeme = value.lexeme) : LiteralIn token value := by
  have hKind : token.kind = value.lexeme.kind := congrArg Lexeme.kind h
  have hText : token.value = value.lexeme.value := congrArg Lexeme.value h
  cases value with
  | integer value =>
    obtain ⟨n, rfl⟩ := Int.eq_ofNat_of_zero_le hValue.1
    refine .integer hKind ?_
    rw [hText]
    exact Number.integer?_toString hValue.2
  | float value => exact hValue.elim
  | char value => exact .char hKind (by rw [hText]; simp [Literal.lexeme])
  | string value =>
    obtain rfl : token.value = value := hText
    exact .string hKind
  | bool value =>
    have hBool : decide (token.value = "true") = value := by
      rw [hText]
      cases value <;> rfl
    exact hBool ▸ .bool hKind

theorem BinaryOp.operator?_kind (op : BinaryOp) : op.stratum.operator? op.kind = some op := by
  cases op <;> rfl

theorem UnaryOp.ofKind?_kind (op : UnaryOp) : UnaryOp.ofKind? op.kind = some op := by
  cases op <;> rfl

theorem BinaryOp.stratum_ne_unary (op : BinaryOp) : op.stratum ≠ .unary := by
  cases op <;> decide

theorem reads_weaken {e : Expr} {t : Stratum} {lexemes : List Lexeme}
    (h : Reads (ExprIn t) Expr.eraseLines lexemes e) (s : Stratum)
    (hRank : s.power.rank ≤ t.power.rank) : Reads (ExprIn s) Expr.eraseLines lexemes e := by
  intro tokens hTokens
  obtain ⟨e', hIn, hErase⟩ := h tokens hTokens
  exact ⟨e', hIn.weaken s hRank, hErase⟩

/-- An operand is read back in any stratum if it stands in parentheses or belongs to the stratum. -/
theorem enclosed_reads {e : Expr} (h : Reads (ExprIn e.stratum) Expr.eraseLines e.lexemes e)
    (stratum : Stratum) {b : Bool}
    (hRank : b = false → stratum.power.rank ≤ e.stratum.power.rank) :
    Reads (ExprIn stratum) Expr.eraseLines (enclosed b e.lexemes) e := by
  cases b with
  | false => exact reads_weaken h stratum (hRank rfl)
  | true =>
    intro tokens hTokens
    simp only [enclosed, if_true, List.map_eq_cons_iff, List.map_eq_append_iff,
      List.map_eq_nil_iff] at hTokens
    obtain ⟨opening, _, rfl, hOpen, inner, _, rfl, hInner, closing, _, rfl, hClose, rfl⟩ := hTokens
    obtain ⟨e', hIn, hErase⟩ := reads_weaken h .logical (Stratum.logical_le _) inner hInner
    have hGrouped := ExprIn.grouped (kind_of_mark hOpen) hIn (kind_of_mark hClose)
    exact ⟨e', hGrouped.weaken stratum stratum.rank_le, hErase⟩

mutual

theorem Expr.reads : ∀ {e : Expr}, e.All Node.Printable →
    Reads (ExprIn e.stratum) Expr.eraseLines e.lexemes e
  | .literal value info, h => by
    intro tokens hTokens
    simp only [Expr.lexemes, List.map_eq_singleton_iff] at hTokens
    obtain ⟨token, rfl, hToken⟩ := hTokens
    refine ⟨_, .literal (Literal.literalIn_of_lexeme h.2 hToken), ?_⟩
    simp [Expr.eraseLines, Info.eraseLines, show info.ty = none from h.1]
  | .binary op left right info, ⟨h, hLeft, hRight⟩ => by
    intro tokens hTokens
    simp only [Expr.lexemes, List.map_eq_append_iff, List.map_eq_cons_iff] at hTokens
    obtain ⟨first, _, rfl, hFirst, token, second, rfl, hToken, hSecond⟩ := hTokens
    have hOperand := Stratum.rank_operand op.stratum_ne_unary
    -- The left operand may be a chain of the same stratum, the right one belongs to the next.
    obtain ⟨left', hLeftIn, hLeftErase⟩ := enclosed_reads (Expr.reads hLeft) op.stratum
      (fun hRank => Nat.le_of_not_lt (of_decide_eq_false hRank)) first hFirst
    obtain ⟨right', hRightIn, hRightErase⟩ := enclosed_reads (Expr.reads hRight) op.stratum.operand
      (fun hRank => by have := of_decide_eq_false hRank; omega) second hSecond
    have hOp : op.stratum.operator? token.kind = some op := by
      rw [kind_of_mark hToken, op.operator?_kind]
    refine ⟨_, hLeftIn.extend hOp hRightIn, ?_⟩
    simp [Expr.eraseLines, Info.eraseLines, hLeftErase, hRightErase, show info.ty = none from h.1]
  | .unary op operand info, ⟨h, hOperand⟩ => by
    intro tokens hTokens
    simp only [Expr.lexemes, List.map_eq_cons_iff] at hTokens
    obtain ⟨token, others, rfl, hToken, hOthers⟩ := hTokens
    have hRank (hUnary : decide (operand.stratum ≠ .unary) = false) :
        Stratum.unary.power.rank ≤ operand.stratum.power.rank := by
      have hStratum : operand.stratum = .unary := Decidable.not_not.mp (of_decide_eq_false hUnary)
      exact Nat.le_of_eq (by rw [hStratum])
    obtain ⟨operand', hIn, hErase⟩ :=
      enclosed_reads (Expr.reads hOperand) .unary hRank others hOthers
    have hOp : UnaryOp.ofKind? token.kind = some op := by
      rw [kind_of_mark hToken, op.ofKind?_kind]
    refine ⟨_, .prefixed hOp hIn, ?_⟩
    simp [Expr.eraseLines, Info.eraseLines, hErase, show info.ty = none from h.1]
  | .symbol location info, ⟨h, hLocation⟩ => by
    intro tokens hTokens
    simp only [Expr.lexemes, List.map_eq_singleton_iff] at hTokens
    obtain ⟨token, rfl, hToken⟩ := hTokens
    obtain ⟨hKind, hValue⟩ := eq_of_name hToken
    refine ⟨_, .symbol hKind, ?_⟩
    simp [Expr.eraseLines, Info.eraseLines, Location.eraseLines, hValue,
      show info.ty = none from h.1, show location.ty = none from hLocation.1]
  | .call callee arguments info, ⟨h, hArguments⟩ => by
    intro tokens hTokens
    simp only [Expr.lexemes, List.map_eq_cons_iff] at hTokens
    obtain ⟨token, others, rfl, hToken, hOthers⟩ := hTokens
    obtain ⟨hKind, hValue⟩ := eq_of_name hToken
    rw [Expr.lexemesOf_eq_map] at hOthers
    obtain ⟨arguments', hIn, hErase⟩ := listed_reads (Expr.readsOf hArguments) others hOthers
    refine ⟨_, .call hKind hIn, ?_⟩
    simp [Expr.eraseLines, Expr.eraseAllLines_eq_map, Info.eraseLines, hErase, hValue,
      show info.ty = none from h.1]

theorem Expr.readsOf : ∀ {exprs : List Expr}, Expr.AllIn Node.Printable exprs →
    ∀ e ∈ exprs, Reads (ExprIn .logical) Expr.eraseLines e.lexemes e
  | [], _ => by simp
  | e :: exprs, ⟨hFirst, hOthers⟩ => by
    simp only [List.forall_mem_cons]
    exact ⟨reads_weaken (Expr.reads hFirst) .logical (Stratum.logical_le _), Expr.readsOf hOthers⟩

end

theorem Expr.reads_logical {e : Expr} (h : e.All Node.Printable) :
    Reads (ExprIn .logical) Expr.eraseLines e.lexemes e :=
  reads_weaken (Expr.reads h) .logical (Stratum.logical_le _)

/-! ## Statements that are read back -/

/-- The value at the end of a statement and its semicolon. -/
theorem value_reads {value : Expr} (h : value.All Node.Printable) {tokens : List Token}
    (hTokens : tokens.map Token.lexeme = value.lexemes ++ [.mark .semicolon]) :
    ∃ inner semicolon value', tokens = inner ++ [semicolon] ∧ ExprIn .logical inner value' ∧
      semicolon.kind = .semicolon ∧ value'.eraseLines = value.eraseLines := by
  obtain ⟨inner, _, rfl, hInner, hLast⟩ := List.map_eq_append_iff.mp hTokens
  obtain ⟨semicolon, rfl, hSemicolon⟩ := List.map_eq_singleton_iff.mp hLast
  obtain ⟨value', hIn, hErase⟩ := Expr.reads_logical h inner hInner
  exact ⟨inner, semicolon, value', rfl, hIn, kind_of_mark hSemicolon, hErase⟩

theorem TypeName.reads {typeName : TypeName} (h : (Node.typeName typeName).Printable)
    {token : Token} (hToken : token.lexeme = .name typeName.name) :
    ∃ typeName', TypeNameIn token typeName' ∧ typeName'.eraseLines = typeName.eraseLines := by
  obtain ⟨hKind, hValue⟩ := eq_of_name hToken
  refine ⟨_, .name hKind, ?_⟩
  simp [TypeName.eraseLines, hValue, show typeName.ty = none from h.1]

theorem Parameter.reads {parameter : Parameter} (h : parameter.All Node.Printable) :
    Reads ParameterIn Parameter.eraseLines parameter.lexemes parameter := by
  intro tokens hTokens
  simp only [Parameter.lexemes, List.map_eq_cons_iff, List.map_eq_nil_iff] at hTokens
  obtain ⟨name, _, rfl, hName, colon, _, rfl, hColon, type, _, rfl, hType, rfl⟩ := hTokens
  obtain ⟨hKind, hValue⟩ := eq_of_name hName
  obtain ⟨typeName', hTypeIn, hErase⟩ := TypeName.reads h.2 hType
  refine ⟨_, .parameter hKind (kind_of_mark hColon) hTypeIn, ?_⟩
  simp [Parameter.eraseLines, hErase, hValue, show parameter.ty = none from h.1.1]

theorem Block.reads {body : List Stmt}
    (h : Reads StmtsIn Stmt.eraseAllLines (Stmt.lexemesOf body) body) (line : UInt32) :
    Reads BlockIn Block.eraseLines (braced (Stmt.lexemesOf body)) ⟨line, body⟩ := by
  intro tokens hTokens
  simp only [braced, List.map_eq_cons_iff, List.map_eq_append_iff, List.map_eq_nil_iff] at hTokens
  obtain ⟨opening, _, rfl, hOpen, inner, _, rfl, hInner, closing, _, rfl, hClose, rfl⟩ := hTokens
  obtain ⟨body', hIn, hErase⟩ := h inner hInner
  refine ⟨_, .block (kind_of_mark hOpen) hIn (kind_of_mark hClose), ?_⟩
  simp only [Block.eraseLines, hErase]

/-- An empty block after a branch is read back from no tokens, any other one from `else` on. -/
theorem Block.reads_else {body : List Stmt}
    (h : Reads StmtsIn Stmt.eraseAllLines (Stmt.lexemesOf body) body) (line line' : UInt32) :
    Reads (ElseIn line') Block.eraseLines
      (if body.isEmpty then [] else .mark .elseWord :: braced (Stmt.lexemesOf body))
      ⟨line, body⟩ := by
  intro tokens hTokens
  cases body with
  | nil =>
    obtain rfl := List.map_eq_nil_iff.mp hTokens
    exact ⟨_, .missing, rfl⟩
  | cons s stmts =>
    obtain ⟨word, others, rfl, hWord, hOthers⟩ := List.map_eq_cons_iff.mp hTokens
    obtain ⟨block', hIn, hErase⟩ := Block.reads h line others hOthers
    exact ⟨block', .block (kind_of_mark hWord) hIn, hErase⟩

mutual

theorem Stmt.reads : ∀ {s : Stmt}, s.All Node.Printable → Reads StmtIn Stmt.eraseLines s.lexemes s
  | .varDecl name typeName none info, ⟨h, hType, _⟩ => by
    intro tokens hTokens
    simp only [Stmt.lexemes, List.map_eq_cons_iff, List.map_eq_nil_iff] at hTokens
    obtain ⟨start, _, rfl, hStart, nameToken, _, rfl, hName, colon, _, rfl, hColon, type, _, rfl,
      hTypeToken, semicolon, _, rfl, hLast, rfl⟩ := hTokens
    obtain ⟨hKind, hValue⟩ := eq_of_name hName
    obtain ⟨typeName', hTypeIn, hErase⟩ := TypeName.reads hType hTypeToken
    refine ⟨_, .varDecl (kind_of_mark hStart) hKind (kind_of_mark hColon) hTypeIn
      (kind_of_mark hLast), ?_⟩
    simp [Stmt.eraseLines, Info.eraseLines, hErase, hValue, show info.ty = none from h.1]
  | .varDecl name typeName (some value) info, ⟨h, hType, hValue⟩ => by
    intro tokens hTokens
    simp only [Stmt.lexemes, List.map_eq_cons_iff] at hTokens
    obtain ⟨start, _, rfl, hStart, nameToken, _, rfl, hName, colon, _, rfl, hColon, type, _, rfl,
      hTypeToken, equals, _, rfl, hEquals, hRest⟩ := hTokens
    obtain ⟨hKind, hNameValue⟩ := eq_of_name hName
    obtain ⟨typeName', hTypeIn, hErase⟩ := TypeName.reads hType hTypeToken
    obtain ⟨inner, semicolon, value', rfl, hIn, hLast, hValueErase⟩ :=
      value_reads (hValue value rfl) hRest
    refine ⟨_, .varDeclTo (kind_of_mark hStart) hKind (kind_of_mark hColon) hTypeIn
      (kind_of_mark hEquals) hIn hLast, ?_⟩
    simp [Stmt.eraseLines, Info.eraseLines, hErase, hValueErase, hNameValue,
      show info.ty = none from h.1]
  | .constDecl name value info, ⟨h, hValue⟩ => by
    intro tokens hTokens
    simp only [Stmt.lexemes, List.map_eq_cons_iff] at hTokens
    obtain ⟨start, _, rfl, hStart, nameToken, _, rfl, hName, equals, _, rfl, hEquals, hRest⟩ :=
      hTokens
    obtain ⟨hKind, hNameValue⟩ := eq_of_name hName
    obtain ⟨inner, semicolon, value', rfl, hIn, hLast, hErase⟩ := value_reads hValue hRest
    refine ⟨_, .constDecl (kind_of_mark hStart) hKind (kind_of_mark hEquals) hIn hLast, ?_⟩
    simp [Stmt.eraseLines, Info.eraseLines, hErase, hNameValue, show info.ty = none from h.1]
  | .echo value line, ⟨_, hValue⟩ => by
    intro tokens hTokens
    obtain ⟨start, _, rfl, hStart, hRest⟩ := List.map_eq_cons_iff.mp hTokens
    obtain ⟨inner, semicolon, value', rfl, hIn, hLast, hErase⟩ := value_reads hValue hRest
    refine ⟨_, .echo (kind_of_mark hStart) hIn hLast, ?_⟩
    simp only [Stmt.eraseLines, hErase]
  | .branch condition ⟨_, thenBody⟩ ⟨elseLine, elseBody⟩ _, ⟨_, hCondition, hThen, hElse⟩ => by
    intro tokens hTokens
    simp only [Stmt.lexemes, List.map_eq_cons_iff, List.map_eq_append_iff] at hTokens
    obtain ⟨start, _, rfl, hStart, first, _, rfl, hFirst, second, third, rfl, hSecond, hThird⟩ :=
      hTokens
    obtain ⟨condition', hIn, hErase⟩ := Expr.reads_logical hCondition first hFirst
    obtain ⟨thenBody', hThenIn, hThenErase⟩ := Block.reads (Stmt.readsOf hThen) 0 second hSecond
    obtain ⟨elseBody', hElseIn, hElseErase⟩ :=
      Block.reads_else (Stmt.readsOf hElse) elseLine start.line third hThird
    refine ⟨_, .branch (.branch (kind_of_mark hStart) hIn hThenIn hElseIn), ?_⟩
    rw [Stmt.eraseLines_branch, Stmt.eraseLines_branch, hErase, hThenErase, hElseErase]
    rfl
  | .loop condition ⟨_, body⟩ _, ⟨_, hCondition, hBody⟩ => by
    intro tokens hTokens
    simp only [Stmt.lexemes, List.map_eq_cons_iff, List.map_eq_append_iff] at hTokens
    obtain ⟨start, _, rfl, hStart, first, second, rfl, hFirst, hSecond⟩ := hTokens
    obtain ⟨condition', hIn, hErase⟩ := Expr.reads_logical hCondition first hFirst
    obtain ⟨body', hBodyIn, hBodyErase⟩ := Block.reads (Stmt.readsOf hBody) 0 second hSecond
    refine ⟨_, .loop (kind_of_mark hStart) hIn hBodyIn, ?_⟩
    rw [Stmt.eraseLines_loop, Stmt.eraseLines_loop, hErase, hBodyErase]
    rfl
  | .assign target value info, ⟨h, hTarget, hValue⟩ => by
    intro tokens hTokens
    simp only [Stmt.lexemes, List.map_eq_cons_iff] at hTokens
    obtain ⟨targetToken, _, rfl, hName, equals, _, rfl, hEquals, hRest⟩ := hTokens
    obtain ⟨hKind, hNameValue⟩ := eq_of_name hName
    obtain ⟨inner, semicolon, value', rfl, hIn, hLast, hErase⟩ := value_reads hValue hRest
    refine ⟨_, .assign hKind (kind_of_mark hEquals) hIn hLast, ?_⟩
    simp [Stmt.eraseLines, Info.eraseLines, Location.eraseLines, hErase, hNameValue,
      show info.ty = none from h.1, show target.ty = none from hTarget.1]
  | .fnDecl name parameters returns ⟨_, body⟩ _, ⟨_, hParameters, hReturns, hBody⟩ => by
    intro tokens hTokens
    simp only [Stmt.lexemes, List.map_eq_cons_iff, List.map_eq_append_iff] at hTokens
    obtain ⟨start, _, rfl, hStart, nameToken, _, rfl, hName, first, _, rfl, hFirst, arrow, _, rfl,
      hArrow, type, second, rfl, hType, hSecond⟩ := hTokens
    obtain ⟨hKind, hNameValue⟩ := eq_of_name hName
    obtain ⟨parameters', hIn, hErase⟩ :=
      listed_reads (fun p hMem => Parameter.reads (hParameters p hMem)) first hFirst
    obtain ⟨returns', hTypeIn, hTypeErase⟩ := TypeName.reads hReturns hType
    obtain ⟨body', hBodyIn, hBodyErase⟩ := Block.reads (Stmt.readsOf hBody) 0 second hSecond
    refine ⟨_, .fnDecl (kind_of_mark hStart) hKind hIn (kind_of_mark hArrow) hTypeIn hBodyIn, ?_⟩
    rw [Stmt.eraseLines_fnDecl, Stmt.eraseLines_fnDecl, hErase, hTypeErase, hBodyErase, hNameValue]
    rfl
  | .ret value info, ⟨h, hValue⟩ => by
    intro tokens hTokens
    obtain ⟨start, _, rfl, hStart, hRest⟩ := List.map_eq_cons_iff.mp hTokens
    obtain ⟨inner, semicolon, value', rfl, hIn, hLast, hErase⟩ := value_reads hValue hRest
    refine ⟨_, .ret (kind_of_mark hStart) hIn hLast, ?_⟩
    simp [Stmt.eraseLines, Info.eraseLines, hErase, show info.ty = none from h.1]

theorem Stmt.readsOf : ∀ {stmts : List Stmt}, Stmt.AllIn Node.Printable stmts →
    Reads StmtsIn Stmt.eraseAllLines (Stmt.lexemesOf stmts) stmts
  | [], _ => by
    intro tokens hTokens
    obtain rfl := List.map_eq_nil_iff.mp hTokens
    exact ⟨[], .nil, rfl⟩
  | s :: stmts, ⟨hFirst, hOthers⟩ => by
    intro tokens hTokens
    obtain ⟨first, others, rfl, hFirstTokens, hOtherTokens⟩ := List.map_eq_append_iff.mp hTokens
    obtain ⟨s', hIn, hErase⟩ := Stmt.reads hFirst first hFirstTokens
    obtain ⟨stmts', hAllIn, hErases⟩ := Stmt.readsOf hOthers others hOtherTokens
    refine ⟨s' :: stmts', .cons hIn hAllIn, ?_⟩
    simp only [Stmt.eraseAllLines, hErase, hErases]

end

/-! ## The round trip -/

/-- Printing a program before checking and reading the text gives the program up to lines. -/
theorem Block.parse_print {program : Block} (hPlain : ∀ entry ∈ program.outline, entry.2.ty = none)
    (hWritable : ∀ entry ∈ program.outline, entry.2.Writable) :
    ∃ tokens block, Token.tokenize program.print = .ok tokens ∧
      Block.ofTokens tokens = .ok block ∧ block.eraseLines = program.eraseLines := by
  have hValid := Stmt.lexemesOf_valid ((Stmt.forall_outlines_iff _ 0 _).mp hWritable)
  have hReads := Stmt.readsOf ((Stmt.forall_outlines_iff Node.Printable 0 program.body).mp
    fun entry hMem => ⟨hPlain entry hMem, hWritable entry hMem⟩)
  obtain ⟨tokens, last, hTokens, hLexemes, hLast⟩ := Token.tokenize_join hValid
  obtain ⟨body, hIn, hErase⟩ := hReads tokens hLexemes
  have hEof : ∀ token ∈ tokens, token.kind ≠ .eof := by
    intro token hMem
    have hToken : token.lexeme.Valid := hValid _ (hLexemes ▸ List.mem_map_of_mem hMem)
    exact hToken.kind_ne_eof
  have hPassed : (Cursor.ofTokens (tokens ++ [last])).Passes tokens ⟨last, []⟩ :=
    ⟨Cursor.tokens_ofTokens hLast, hEof⟩
  refine ⟨_, _, hTokens, Block.ofTokens_complete hPassed hLast (.program hIn), ?_⟩
  simp only [Block.eraseLines, hErase]

theorem Block.parse_print_loop :
    let symbol (name : String) : Expr := .symbol ⟨⟨1, none⟩, name⟩ ⟨1, none⟩
    let negation : Expr :=
      .unary .not (.binary .and (symbol "a") (symbol "b") ⟨1, none⟩) ⟨1, none⟩
    let program : Block :=
      ⟨1, [.loop negation ⟨1, [.echo (.literal (.string "\"\\") ⟨1, none⟩) 1]⟩ 1]⟩
    program.print = "while ! ( a && b ) \x7b echo \"\\\"\\\\\" ; \x7d" ∧
      ∃ tokens block, Token.tokenize program.print = .ok tokens ∧
        Block.ofTokens tokens = .ok block ∧ block.eraseLines = program.eraseLines :=
  ⟨by decide, Block.parse_print (by decide) (by decide)⟩

end Jingle.Syntax

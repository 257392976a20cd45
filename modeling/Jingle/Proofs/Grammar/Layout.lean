import Jingle.Grammar.Statement
import Jingle.Proofs.Grammar.Cursor
import Jingle.Proofs.Syntax.Tree
import Jingle.Proofs.Token.Lexeme

/-!
# Two readings of the same lexemes

Readers look at the kinds and values of tokens and only hand on their places. On two lists of tokens
with the same lexemes they go the same way: their cursors stay at the same index, and either both
stop for the same cause at tokens with the same index, or both give trees that differ only in their
lines.

* `Alike first second R r r'` says that two readers go the same way on two lists and that their
  results are related, and `Steady` says it of one reader and an erasure of its results.
* `Expr.reader_steady` and `Stmt.reader_steady` compare what the readers of the language do.
* `Block.ofTokens_agree` compares whole programs.
-/

namespace Jingle.Grammar

open Token (Kind lexeme)

/-! ## Two lists of tokens -/

/-- Two tokens with the same index in two lists. -/
def Twins (first second : List Token) (t t' : Token) : Prop :=
  ∃ i : Nat, first[i]? = some t ∧ second[i]? = some t'

/-- Two cursors at the same index of two lists. -/
def Cursor.Level (first second : List Token) (c c' : Cursor) : Prop :=
  ∃ i, c.tokens = first.drop i ∧ c'.tokens = second.drop i

/-- Two readers end in the same way: with related results at the same index, or for the same cause
at tokens with the same index. -/
inductive Agree (first second : List Token) {α : Type} (R : α → α → Prop) :
    EStateM.Result Fault Cursor α → EStateM.Result Fault Cursor α → Prop where
  | ok {a a' : α} {c c' : Cursor} : R a a' → c.Level first second c' →
      Agree first second R (.ok a c) (.ok a' c')
  | error {t t' : Token} {c c' : Cursor} (cause : Fault.Cause) : Twins first second t t' →
      Agree first second R (.error ⟨cause, t.start⟩ c) (.error ⟨cause, t'.start⟩ c')

/-- Two readers that start at the same index end in the same way. -/
def Alike (first second : List Token) {α : Type} (R : α → α → Prop) (r r' : Reader α) : Prop :=
  ∀ ⦃c c' : Cursor⦄, c.Level first second c' → Agree first second R (r c) (r' c')

/-- A reader goes the same way on two lists, and an erasure makes its results equal. -/
def Steady (first second : List Token) {α β : Type} (erase : α → β) (r : Reader α) : Prop :=
  Alike first second (fun a a' => erase a = erase a') r r

section Rules

variable {first second : List Token} {α β : Type} {R : α → α → Prop} {S : β → β → Prop}

theorem Cursor.Level.twins {c c' : Cursor} (h : c.Level first second c') :
    Twins first second c.current c'.current := by
  obtain ⟨i, hFirst, hSecond⟩ := h
  refine ⟨i, ?_, ?_⟩
  · rw [← List.head?_drop, ← hFirst]
    rfl
  · rw [← List.head?_drop, ← hSecond]
    rfl

theorem alike_pure {a a' : α} (h : R a a') : Alike first second R (pure a) (pure a') :=
  fun _ _ hLevel => .ok h hLevel

theorem Alike.bind {r r' : Reader α} {f f' : α → Reader β} (hReader : Alike first second R r r')
    (hRest : ∀ a a', R a a' → Alike first second S (f a) (f' a')) :
    Alike first second S (r >>= f) (r' >>= f') := by
  intro c c' hLevel
  have hAgree := hReader hLevel
  simp only [Bind.bind, EStateM.bind]
  generalize r c = result at hAgree ⊢
  generalize r' c' = result' at hAgree ⊢
  cases hAgree with
  | ok hResult hNext => exact hRest _ _ hResult hNext
  | error cause hTwins => exact .error cause hTwins

theorem alike_throw {t t' : Token} (h : Twins first second t t') (cause : Fault.Cause) :
    Alike first second R (throw ⟨cause, t.start⟩) (throw ⟨cause, t'.start⟩) :=
  fun _ _ _ => .error cause h

theorem alike_exhausted : Alike first second R Reader.exhausted Reader.exhausted :=
  fun _ _ hLevel => .error .tooDeep hLevel.twins

end Rules

/-! ## Lists with the same lexemes -/

section Lexemes

variable {first second : List Token} (hLexemes : first.map lexeme = second.map lexeme)
  {α : Type} {R : α → α → Prop}

include hLexemes

theorem Twins.lexeme_eq {t t' : Token} (h : Twins first second t t') : lexeme t = lexeme t' := by
  obtain ⟨i, hFirst, hSecond⟩ := h
  have hIndex := congrArg (·[i]?) hLexemes
  simpa [List.getElem?_map, hFirst, hSecond] using hIndex

theorem Twins.kind_eq {t t' : Token} (h : Twins first second t t') : t.kind = t'.kind :=
  congrArg Token.Lexeme.kind (h.lexeme_eq hLexemes)

theorem Twins.value_eq {t t' : Token} (h : Twins first second t t') : t.value = t'.value :=
  congrArg Token.Lexeme.value (h.lexeme_eq hLexemes)

theorem Cursor.Level.kind_eq {c c' : Cursor} (h : c.Level first second c') : c.kind = c'.kind :=
  h.twins.kind_eq hLexemes

theorem Cursor.Level.advance {c c' : Cursor} (h : c.Level first second c') :
    c.advance.Level first second c'.advance := by
  have hLength : first.length = second.length := by simpa using congrArg List.length hLexemes
  obtain ⟨i, hFirst, hSecond⟩ := h
  obtain ⟨current, rest⟩ := c
  obtain ⟨current', rest'⟩ := c'
  have hRest : rest = first.drop (i + 1) := by
    rw [← List.tail_drop, ← hFirst]
    rfl
  have hRest' : rest' = second.drop (i + 1) := by
    rw [← List.tail_drop, ← hSecond]
    rfl
  -- The lists are equally long, so that both cursors are on the last token or none is.
  have hLengths : rest.length = rest'.length := by
    rw [hRest, hRest', List.length_drop, List.length_drop, hLength]
  cases rest with
  | nil =>
    cases rest' with
    | nil => exact ⟨i, hFirst, hSecond⟩
    | cons => cases hLengths
  | cons =>
    cases rest' with
    | nil => cases hLengths
    | cons => exact ⟨i + 1, hRest, hRest'⟩

/-- What comes after a look at a token is compared for the same kind. -/
theorem alike_kind {f f' : Kind → Reader α} (h : ∀ kind, Alike first second R (f kind) (f' kind)) :
    Alike first second R (Reader.kind >>= f) (Reader.kind >>= f') := by
  intro c c' hLevel
  change Agree first second R (f c.kind c) (f' c'.kind c')
  rw [hLevel.kind_eq hLexemes]
  exact h _ hLevel

theorem alike_nextKind {f f' : Kind → Reader α}
    (h : ∀ kind, Alike first second R (f kind) (f' kind)) :
    Alike first second R (Reader.nextKind >>= f) (Reader.nextKind >>= f') := by
  intro c c' hLevel
  change Agree first second R (f c.advance.kind c) (f' c'.advance.kind c')
  rw [(hLevel.advance hLexemes).kind_eq hLexemes]
  exact h _ hLevel

theorem alike_next : Alike first second (Twins first second) Reader.next Reader.next :=
  fun _ _ hLevel => .ok hLevel.twins (hLevel.advance hLexemes)

theorem alike_failFor (message : String) :
    Alike first second R (Reader.failFor message) (Reader.failFor message) := by
  intro c c' hLevel
  have hValue := hLevel.twins.value_eq hLexemes
  simp only [Reader.failFor, Cursor.unexpectedFor, hValue]
  exact .error _ hLevel.twins

theorem alike_expectOr (kind : Kind) {fault : Cursor → Fault} (cause : String → Fault.Cause)
    (hFault : ∀ c, fault c = ⟨cause c.current.value, c.current.start⟩) :
    Alike first second (Twins first second) (Reader.expectOr kind fault)
      (Reader.expectOr kind fault) := by
  intro c c' hLevel
  have hKind := hLevel.kind_eq hLexemes
  have hValue := hLevel.twins.value_eq hLexemes
  simp only [Reader.expectOr, hKind]
  split
  · exact .ok hLevel.twins (hLevel.advance hLexemes)
  · rw [hFault, hFault, hValue]
    exact .error _ hLevel.twins

theorem alike_expect (kind : Kind) :
    Alike first second (Twins first second) (Reader.expect kind) (Reader.expect kind) :=
  alike_expectOr hLexemes kind .unexpected fun _ => rfl

theorem alike_expectFor (kind : Kind) (message : String) :
    Alike first second (Twins first second) (Reader.expectFor kind message)
      (Reader.expectFor kind message) :=
  alike_expectOr hLexemes kind (.unexpectedFor · message) fun _ => rfl

theorem alike_expect_pure (kind : Kind) {a a' : α} (h : R a a') :
    Alike first second R (do let _ ← Reader.expect kind; pure a)
      (do let _ ← Reader.expect kind; pure a') :=
  (alike_expect hLexemes kind).bind fun _ _ _ => alike_pure h

/-! ## Lists in parentheses -/

variable {β : Type} {erase : α → β} {item : Reader α} (hItem : Steady first second erase item)

include hItem

theorem commaSeparated_steady (steps : Nat) :
    Steady first second (List.map erase) (Reader.commaSeparated item steps) := by
  induction steps with
  | zero => exact alike_exhausted
  | succ steps ih =>
    refine hItem.bind fun a a' hFirst => ?_
    refine alike_kind hLexemes fun kind => ?_
    split
    · refine (alike_next hLexemes).bind fun _ _ _ => ?_
      refine ih.bind fun as as' hOthers => ?_
      exact alike_pure (by rw [List.map_cons, List.map_cons, hFirst, hOthers])
    · exact alike_pure (by rw [List.map_singleton, List.map_singleton, hFirst])

theorem parenthesised_steady (steps : Nat) :
    Steady first second (List.map erase) (Reader.parenthesised item steps) := by
  refine (alike_expect hLexemes _).bind fun _ _ _ => ?_
  refine alike_kind hLexemes fun kind => ?_
  split
  · exact alike_expect_pure hLexemes _ rfl
  · exact (commaSeparated_steady hLexemes hItem steps).bind fun _ _ hItems =>
      alike_expect_pure hLexemes _ hItems

end Lexemes

end Jingle.Grammar

namespace Jingle.Syntax

open Grammar Grammar.Reader
open Token (Kind lexeme)

variable {first second : List Token} (hLexemes : first.map lexeme = second.map lexeme)

/-! ## Expressions -/

namespace Expr

section Constructs

variable {expr : Power → Reader Expr} (hExpr : ∀ power, Steady first second eraseLines (expr power))

include hLexemes hExpr

theorem readCall_alike (steps : Nat) {callee callee' : Token}
    (hCallee : Twins first second callee callee') :
    Alike first second (fun e e' => e.eraseLines = e'.eraseLines) (readCall expr steps callee)
      (readCall expr steps callee') := by
  refine (parenthesised_steady hLexemes (hExpr .lowest) steps).bind fun as as' hArguments => ?_
  refine alike_pure ?_
  simp only [eraseLines, eraseAllLines_eq_map, hArguments, hCallee.value_eq hLexemes,
    Info.eraseLines]

theorem readPrimary_steady (steps : Nat) :
    Steady first second eraseLines (readPrimary expr steps) := by
  refine (alike_next hLexemes).bind fun token token' hTwins => ?_
  have hLiteral : Literal.ofToken token = Literal.ofToken token' := by
    simp only [Literal.ofToken, hTwins.kind_eq hLexemes, hTwins.value_eq hLexemes]
  rw [hTwins.kind_eq hLexemes]
  split
  · refine alike_kind hLexemes fun kind => ?_
    split
    · exact readCall_alike hLexemes hExpr steps hTwins
    · refine alike_pure ?_
      simp only [eraseLines, Location.eraseLines, Info.eraseLines, hTwins.value_eq hLexemes]
  · rw [hLiteral]
    split
    · exact alike_pure rfl
    · exact alike_throw hTwins _

theorem readPrefixed_steady : Steady first second eraseLines (readPrefixed expr) := by
  refine (alike_next hLexemes).bind fun token token' hTwins => ?_
  rw [hTwins.kind_eq hLexemes, hTwins.value_eq hLexemes]
  split
  · refine (hExpr .unary).bind fun operand operand' hOperand => alike_pure ?_
    simp only [eraseLines, Info.eraseLines, hOperand]
  · exact alike_throw hTwins _

theorem readGrouped_steady : Steady first second eraseLines (readGrouped expr) := by
  refine (alike_next hLexemes).bind fun _ _ _ => ?_
  refine (hExpr .lowest).bind fun inner inner' hInner => ?_
  exact alike_expect_pure hLexemes _ hInner

theorem readBinary_alike (power : Power) {left left' : Expr}
    (hLeft : left.eraseLines = left'.eraseLines) :
    Alike first second (fun e e' => e.eraseLines = e'.eraseLines) (readBinary expr power left)
      (readBinary expr power left') := by
  refine (alike_next hLexemes).bind fun token token' hTwins => ?_
  rw [hTwins.kind_eq hLexemes, hTwins.value_eq hLexemes]
  split
  · refine (hExpr power).bind fun right right' hRight => alike_pure ?_
    simp only [eraseLines, Info.eraseLines, hLeft, hRight]
  · exact alike_throw hTwins _

theorem readForm_steady (steps : Nat) (form : OperandForm) :
    Steady first second eraseLines (readForm expr steps form) := by
  cases form with
  | primary => exact readPrimary_steady hLexemes hExpr steps
  | prefixed => exact readPrefixed_steady hLexemes hExpr
  | grouped => exact readGrouped_steady hLexemes hExpr

theorem readOperand_steady (steps : Nat) (tables : Tables) :
    Steady first second eraseLines (readOperand expr steps tables) := by
  refine alike_kind hLexemes fun kind => ?_
  split
  · exact readForm_steady hLexemes hExpr steps _
  · exact alike_failFor hLexemes _

theorem readOperators_alike (tables : Tables) (power : Power) (steps : Nat) {left left' : Expr}
    (hLeft : left.eraseLines = left'.eraseLines) :
    Alike first second (fun e e' => e.eraseLines = e'.eraseLines)
      (readOperators tables expr power steps left)
      (readOperators tables expr power steps left') := by
  induction steps generalizing left left' with
  | zero => exact alike_exhausted
  | succ steps ih =>
    refine alike_kind hLexemes fun kind => ?_
    dsimp only
    split
    · exact alike_pure hLeft
    · exact (readBinary_alike hLexemes hExpr _ hLeft).bind fun _ _ hExtended => ih hExtended

end Constructs

include hLexemes

theorem reader_steady (tables : Tables) (steps : Nat) (power : Power) :
    Steady first second eraseLines (reader tables steps power) := by
  induction steps generalizing power with
  | zero => exact alike_exhausted
  | succ steps ih =>
    refine (readOperand_steady hLexemes ih steps tables).bind fun left left' hLeft => ?_
    exact readOperators_alike hLexemes ih tables power steps hLeft

end Expr

/-! ## Statements -/

include hLexemes

theorem TypeName.reader_steady : Steady first second TypeName.eraseLines TypeName.reader := by
  refine (alike_expectFor hLexemes _ _).bind fun token token' hTwins => alike_pure ?_
  simp only [TypeName.eraseLines, hTwins.value_eq hLexemes]

theorem Parameter.reader_steady : Steady first second Parameter.eraseLines Parameter.reader := by
  refine (alike_expectFor hLexemes _ _).bind fun token token' hTwins => ?_
  refine (alike_expect hLexemes _).bind fun _ _ _ => ?_
  refine (TypeName.reader_steady hLexemes).bind fun typeName typeName' hType => alike_pure ?_
  simp only [Parameter.eraseLines, hType, hTwins.value_eq hLexemes]

theorem Block.readBody_steady {stmt : Reader Stmt}
    (hStmt : Steady first second Stmt.eraseLines stmt) (steps : Nat) :
    Steady first second Stmt.eraseAllLines (Block.readBody stmt steps) := by
  induction steps with
  | zero => exact alike_exhausted
  | succ steps ih =>
    refine alike_kind hLexemes fun kind => ?_
    split
    · exact alike_pure rfl
    · exact alike_failFor hLexemes _
    · refine hStmt.bind fun s s' hFirst => ?_
      refine ih.bind fun stmts stmts' hOthers => alike_pure ?_
      rw [Stmt.eraseAllLines, Stmt.eraseAllLines, hFirst, hOthers]

theorem Block.reader_steady {stmt : Reader Stmt} (hStmt : Steady first second Stmt.eraseLines stmt)
    (steps : Nat) : Steady first second Block.eraseLines (Block.reader stmt steps) := by
  refine (alike_expect hLexemes _).bind fun _ _ _ => ?_
  refine (Block.readBody_steady hLexemes hStmt steps).bind fun body body' hBody => ?_
  refine alike_expect_pure hLexemes _ ?_
  rw [Block.eraseLines, Block.eraseLines, hBody]

namespace Stmt

section Constructs

variable {expr : Power → Reader Expr}
  (hExpr : ∀ power, Steady first second Expr.eraseLines (expr power))

include hExpr

theorem readVar_steady : Steady first second eraseLines (readVar expr) := by
  refine (alike_next hLexemes).bind fun _ _ _ => ?_
  refine (alike_expectFor hLexemes _ _).bind fun name name' hName => ?_
  refine (alike_expectFor hLexemes _ _).bind fun _ _ _ => ?_
  refine (TypeName.reader_steady hLexemes).bind fun typeName typeName' hType => ?_
  refine alike_kind hLexemes fun kind => ?_
  split
  · refine (alike_next hLexemes).bind fun _ _ _ => ?_
    refine (hExpr .lowest).bind fun value value' hValue => ?_
    refine alike_expect_pure hLexemes _ ?_
    simp only [eraseLines, Info.eraseLines, hName.value_eq hLexemes, hType, Option.map_some, hValue]
  · refine alike_expect_pure hLexemes _ ?_
    simp only [eraseLines, Info.eraseLines, hName.value_eq hLexemes, hType]

theorem readConst_steady : Steady first second eraseLines (readConst expr) := by
  refine (alike_next hLexemes).bind fun _ _ _ => ?_
  refine (alike_expectFor hLexemes _ _).bind fun name name' hName => ?_
  refine (alike_expectFor hLexemes _ _).bind fun _ _ _ => ?_
  refine (hExpr .lowest).bind fun value value' hValue => ?_
  refine alike_expect_pure hLexemes _ ?_
  simp only [eraseLines, Info.eraseLines, hName.value_eq hLexemes, hValue]

theorem readValue_steady (make : Expr → UInt32 → Stmt)
    (hMake : ∀ {value value' : Expr} {line line' : UInt32}, value.eraseLines = value'.eraseLines →
      (make value line).eraseLines = (make value' line').eraseLines) :
    Steady first second eraseLines (readValue expr make) := by
  refine (alike_next hLexemes).bind fun _ _ _ => ?_
  refine (hExpr .lowest).bind fun value value' hValue => ?_
  exact alike_expect_pure hLexemes _ (hMake hValue)

theorem readAssign_steady : Steady first second eraseLines (readAssign expr) := by
  refine alike_nextKind hLexemes fun kind => ?_
  split
  · refine (alike_next hLexemes).bind fun target target' hTarget => ?_
    refine (alike_next hLexemes).bind fun _ _ _ => ?_
    refine (hExpr .lowest).bind fun value value' hValue => ?_
    refine alike_expect_pure hLexemes _ ?_
    simp only [eraseLines, Location.eraseLines, Info.eraseLines, hTarget.value_eq hLexemes, hValue]
  · exact alike_failFor hLexemes _

variable {block : Reader Block} (hBlock : Steady first second Block.eraseLines block)

include hBlock

theorem readLoop_steady : Steady first second eraseLines (readLoop expr block) := by
  refine (alike_next hLexemes).bind fun _ _ _ => ?_
  refine (hExpr .lowest).bind fun condition condition' hCondition => ?_
  refine hBlock.bind fun body body' hBody => alike_pure ?_
  rw [eraseLines_loop, eraseLines_loop, hCondition, hBody]

theorem readBranch_steady (steps : Nat) :
    Steady first second eraseLines (readBranch expr block steps) := by
  induction steps with
  | zero => exact alike_exhausted
  | succ steps ih =>
    refine (alike_next hLexemes).bind fun _ _ _ => ?_
    refine (hExpr .lowest).bind fun condition condition' hCondition => ?_
    refine hBlock.bind fun thenBody thenBody' hThen => ?_
    refine alike_kind hLexemes fun kind => ?_
    split
    · refine (alike_next hLexemes).bind fun _ _ _ => ?_
      refine alike_kind hLexemes fun kind => ?_
      split
      · refine ih.bind fun inner inner' hInner => alike_pure ?_
        rw [eraseLines_branch, eraseLines_branch, hCondition, hThen]
        simp only [Block.eraseLines, eraseAllLines, hInner]
      · refine hBlock.bind fun elseBody elseBody' hElse => alike_pure ?_
        rw [eraseLines_branch, eraseLines_branch, hCondition, hThen, hElse]
    · refine alike_pure ?_
      rw [eraseLines_branch, eraseLines_branch, hCondition, hThen]
      rfl

omit hExpr in
theorem readFn_steady (steps : Nat) : Steady first second eraseLines (readFn block steps) := by
  refine (alike_next hLexemes).bind fun _ _ _ => ?_
  refine (alike_expectFor hLexemes _ _).bind fun name name' hName => ?_
  refine (parenthesised_steady hLexemes (Parameter.reader_steady hLexemes) steps).bind
    fun parameters parameters' hParameters => ?_
  refine (alike_expectFor hLexemes _ _).bind fun _ _ _ => ?_
  refine (TypeName.reader_steady hLexemes).bind fun returns returns' hReturns => ?_
  refine hBlock.bind fun body body' hBody => alike_pure ?_
  rw [eraseLines_fnDecl, eraseLines_fnDecl, hName.value_eq hLexemes, hParameters, hReturns, hBody]

omit hBlock in
theorem readForm_steady {stmt : Reader Stmt} (hStmt : Steady first second eraseLines stmt)
    (steps : Nat) (form : StmtForm) :
    Steady first second eraseLines (readForm expr stmt steps form) := by
  have hBlock := Block.reader_steady hLexemes hStmt steps
  cases form with
  | any => exact hStmt
  | varDecl => exact readVar_steady hLexemes hExpr
  | constDecl => exact readConst_steady hLexemes hExpr
  | echo =>
    refine readValue_steady hLexemes hExpr .echo fun hValue => ?_
    simp only [eraseLines, hValue]
  | branch => exact readBranch_steady hLexemes hExpr hBlock steps
  | loop => exact readLoop_steady hLexemes hExpr hBlock
  | fnDecl => exact readFn_steady hLexemes hBlock steps
  | ret =>
    refine readValue_steady hLexemes hExpr (fun value line => .ret value ⟨line, none⟩) ?_
    intro _ _ _ _ hValue
    simp only [eraseLines, Info.eraseLines, hValue]
  | assign => exact readAssign_steady hLexemes hExpr

end Constructs

theorem reader_steady (tables : Tables) (steps : Nat) :
    Steady first second eraseLines (reader tables steps) := by
  induction steps with
  | zero => exact alike_exhausted
  | succ steps ih =>
    refine alike_kind hLexemes fun kind => ?_
    split
    · exact readForm_steady hLexemes (Expr.reader_steady hLexemes tables steps) ih steps _
    · exact alike_failFor hLexemes _

end Stmt

/-! ## Programs -/

theorem Block.readAll_steady {stmt : Reader Stmt} (hStmt : Steady first second Stmt.eraseLines stmt)
    (steps : Nat) : Steady first second Stmt.eraseAllLines (Block.readAll stmt steps) := by
  induction steps with
  | zero => exact alike_exhausted
  | succ steps ih =>
    refine alike_kind hLexemes fun kind => ?_
    split
    · exact alike_pure rfl
    · refine hStmt.bind fun s s' hFirst => ?_
      refine ih.bind fun stmts stmts' hOthers => alike_pure ?_
      rw [Stmt.eraseAllLines, Stmt.eraseAllLines, hFirst, hOthers]

/-- Lists of tokens that hold the same lexemes and end in a token that marks the end are refused for
the same cause at tokens with the same index, or make programs that differ only in their lines. -/
theorem Block.ofTokens_agree (hFirst : (Cursor.ofTokens first).tokens = first)
    (hSecond : (Cursor.ofTokens second).tokens = second) :
    (∃ cause t t', Twins first second t t' ∧
      Block.ofTokens first = .error ⟨cause, t.start⟩ ∧
      Block.ofTokens second = .error ⟨cause, t'.start⟩) ∨
    (∃ program program', Block.ofTokens first = .ok program ∧
      Block.ofTokens second = .ok program' ∧ program.eraseLines = program'.eraseLines) := by
  have hBudget : (Cursor.ofTokens first).budget = (Cursor.ofTokens second).budget := by
    have hLength : first.length = second.length := by simpa using congrArg List.length hLexemes
    rw [← hFirst, ← hSecond, Cursor.tokens, Cursor.tokens, List.length_cons, List.length_cons]
      at hLength
    rw [Cursor.budget, Cursor.budget]
    omega
  have hLevel : (Cursor.ofTokens first).Level first second (Cursor.ofTokens second) :=
    ⟨0, hFirst, hSecond⟩
  have hAgree := Block.readAll_steady hLexemes
    (Stmt.reader_steady hLexemes .standard (Cursor.ofTokens second).budget)
    (Cursor.ofTokens second).budget hLevel
  simp only [Block.ofTokens, hBudget]
  generalize Block.readAll _ _ (Cursor.ofTokens first) = result at hAgree ⊢
  generalize Block.readAll _ _ (Cursor.ofTokens second) = result' at hAgree ⊢
  cases hAgree with
  | ok hBody _ =>
    refine .inr ⟨_, _, rfl, rfl, ?_⟩
    rw [Block.eraseLines, Block.eraseLines, hBody]
  | error cause hTwins => exact .inl ⟨cause, _, _, hTwins, rfl, rfl⟩

end Jingle.Syntax

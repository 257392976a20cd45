import Jingle.Grammar.Statement
import Jingle.Proofs.Grammar.Expression

/-!
# Reading statements and the grammar of statements

As for expressions, one step leads from the readers of the parts of a statement to the reader of the
statement, and induction on the steps ties the readers together. A statement ends at any token but
`else`, which belongs to the branch before it.

* `Stmt.reader_sound` and `Stmt.reader_complete` compare `Stmt.reader` with `StmtIn`.
* `Block.readAll_sound` and `Block.readAll_complete` compare `Block.readAll` with `StmtsIn`.
-/

namespace Jingle.Grammar

open Syntax
open Token (Kind)

/-! ## Single tokens -/

theorem Reader.expect_sound {k : Kind} {token : Token} {c c' : Cursor} (hEnds : c.Ends)
    (hKind : k ≠ .eof) (hRead : c.kind = k ∧ c.current = token ∧ c.advance = c') :
    c.Passes [token] c' ∧ token.kind = k := by
  obtain ⟨rfl, rfl, rfl⟩ := hRead
  exact ⟨Cursor.passes_advance hEnds hKind, rfl⟩

theorem Reader.next_complete {token : Token} {passed : List Token} {c c' : Cursor}
    (hPassed : c.Passes (token :: passed) c') : next c = .ok token c.advance :=
  next_eq_ok.mpr ⟨hPassed.uncons.1, rfl⟩

theorem Reader.expect_complete {k : Kind} {token : Token} {passed : List Token} {c c' : Cursor}
    (hPassed : c.Passes (token :: passed) c') (hKind : token.kind = k) :
    expect k c = .ok token c.advance :=
  expect_eq_ok.mpr ⟨hPassed.kind_eq.trans hKind, hPassed.uncons.1, rfl⟩

theorem Reader.expectFor_complete {k : Kind} {message : String} {token : Token}
    {passed : List Token} {c c' : Cursor} (hPassed : c.Passes (token :: passed) c')
    (hKind : token.kind = k) : expectFor k message c = .ok token c.advance :=
  expectFor_eq_ok.mpr ⟨hPassed.kind_eq.trans hKind, hPassed.uncons.1, rfl⟩

/-- The kind of token with which a statement of a form begins. -/
def StmtForm.start? : StmtForm → Option Kind
  | any => none
  | varDecl => some .varWord
  | constDecl => some .constWord
  | echo => some .echoWord
  | branch => some .ifWord
  | loop => some .whileWord
  | fnDecl => some .fnWord
  | ret => some .returnWord
  | assign => some .identifier

theorem Tables.standard_stmt?_eq_some {kind : Kind} {form : StmtForm} :
    Tables.standard.stmt? kind = some form ↔ form.start? = some kind := by
  cases form <;> cases kind <;> decide

/-- The kinds that may stand after a statement in place of another one begin no statement. -/
theorem Tables.standard_stmt?_ne {kind : Kind} {form : StmtForm}
    (h : Tables.standard.stmt? kind = some form) :
    kind ≠ .closeCurly ∧ kind ≠ .eof ∧ kind ≠ .elseWord := by
  refine ⟨?_, ?_, ?_⟩ <;>
  · rintro rfl
    cases h

end Jingle.Grammar

namespace Jingle.Syntax

open Grammar Grammar.Reader
open Token (Kind)

/-! ## Soundness -/

theorem TypeName.reader_sound :
    Sound TypeName.reader fun passed typeName => ∃ token, passed = [token] ∧
      TypeNameIn token typeName := by
  intro c c' typeName hEnds hRead
  simp only [TypeName.reader, bind_eq_ok, expectFor_eq_ok, pure_eq_ok] at hRead
  obtain ⟨token, _, hToken, rfl, rfl⟩ := hRead
  obtain ⟨hPassed, hKind⟩ := expect_sound hEnds (by decide) hToken
  exact ⟨_, hPassed, token, rfl, .name hKind⟩

theorem Parameter.reader_sound : Sound Parameter.reader ParameterIn := by
  intro c c' parameter hEnds hRead
  simp only [Parameter.reader, bind_eq_ok, expectFor_eq_ok, expect_eq_ok, pure_eq_ok] at hRead
  obtain ⟨name, _, hName, colon, _, hColon, typeName, _, hType, rfl, rfl⟩ := hRead
  obtain ⟨hName, hNameKind⟩ := expect_sound hEnds (by decide) hName
  obtain ⟨hColon, hColonKind⟩ := expect_sound (hName.ends hEnds) (by decide) hColon
  obtain ⟨_, hType, type, rfl, hTypeIn⟩ :=
    TypeName.reader_sound (hColon.ends (hName.ends hEnds)) hType
  exact ⟨_, hName.append (hColon.append hType), .parameter hNameKind hColonKind hTypeIn⟩

theorem Block.readBody_succ (stmt : Reader Stmt) (steps : Nat) (c : Cursor) :
    Block.readBody stmt (steps + 1) c =
      if c.kind = .closeCurly then .ok [] c
      else if c.kind = .eof then failFor "expected '\x7d' to close block" c
      else (do
        let first ← stmt
        let others ← Block.readBody stmt steps
        return first :: others) c := by
  rw [Block.readBody, bind_of_eq_ok (kind_eq_ok.mpr ⟨rfl, rfl⟩)]
  cases c.kind <;> rfl

theorem Block.readBody_sound {stmt : Reader Stmt} (hStmt : Sound stmt StmtIn) (steps : Nat) :
    Sound (Block.readBody stmt steps) StmtsIn := by
  induction steps with
  | zero => exact fun _ hRead => absurd hRead exhausted_ne_ok
  | succ steps ih =>
    intro c c' body hEnds hRead
    rw [Block.readBody_succ] at hRead
    split at hRead
    · cases hRead
      exact ⟨[], .refl c, .nil⟩
    · split at hRead
      · exact absurd hRead failFor_ne_ok
      · simp only [bind_eq_ok, pure_eq_ok] at hRead
        obtain ⟨first, _, hFirst, others, _, hOthers, rfl, rfl⟩ := hRead
        obtain ⟨tokens, hTokens, hIn⟩ := hStmt hEnds hFirst
        obtain ⟨more, hMore, hAll⟩ := ih (hTokens.ends hEnds) hOthers
        exact ⟨_, hTokens.append hMore, .cons hIn hAll⟩

theorem Block.reader_sound {stmt : Reader Stmt} (hStmt : Sound stmt StmtIn) (steps : Nat) :
    Sound (Block.reader stmt steps) BlockIn := by
  intro c c' block hEnds hRead
  simp only [Block.reader, bind_eq_ok, expect_eq_ok, pure_eq_ok] at hRead
  obtain ⟨opening, _, hOpening, body, _, hBody, closing, _, hClosing, rfl, rfl⟩ := hRead
  obtain ⟨hOpening, hOpen⟩ := expect_sound hEnds (by decide) hOpening
  obtain ⟨tokens, hTokens, hIn⟩ := Block.readBody_sound hStmt steps (hOpening.ends hEnds) hBody
  obtain ⟨hClosing, hClose⟩ :=
    expect_sound (hTokens.ends (hOpening.ends hEnds)) (by decide) hClosing
  exact ⟨_, hOpening.append (hTokens.append hClosing), .block hOpen hIn hClose⟩

namespace Stmt

section Sound

variable {expr : Power → Reader Expr} (hExpr : Expr.SoundReader expr) {c c' : Cursor} {s : Stmt}

include hExpr

/-- The expression at the end of a statement and its semicolon. -/
theorem value_sound {e : Expr} {c₁ : Cursor} {semicolon : Token} (hEnds : c.Ends)
    (hRead : expr .lowest c = .ok e c₁)
    (hSemicolon : c₁.kind = .semicolon ∧ c₁.current = semicolon ∧ c₁.advance = c') :
    ∃ tokens, c.Passes (tokens ++ [semicolon]) c' ∧ ExprIn .logical tokens e ∧
      semicolon.kind = .semicolon := by
  obtain ⟨tokens, hTokens, hIn⟩ := hExpr.lowest hEnds hRead
  obtain ⟨hLast, hKind⟩ := expect_sound (hTokens.ends hEnds) (by decide) hSemicolon
  exact ⟨tokens, hTokens.append hLast, hIn, hKind⟩

theorem readVar_sound (hEnds : c.Ends) (hStart : c.kind = .varWord)
    (hRead : readVar expr c = .ok s c') : ∃ passed, c.Passes passed c' ∧ StmtIn passed s := by
  simp only [readVar, bind_eq_ok, next_eq_ok, expectFor_eq_ok, kind_eq_ok] at hRead
  obtain ⟨start, _, ⟨rfl, rfl⟩, name, _, hName, colon, _, hColon, typeName, c₁, hType, k, _,
    ⟨rfl, rfl⟩, hRead⟩ := hRead
  have hFirst := Cursor.passes_advance hEnds (by rw [hStart]; decide)
  obtain ⟨hName, hNameKind⟩ := expect_sound (hFirst.ends hEnds) (by decide) hName
  have hHead := hFirst.append hName
  obtain ⟨hColon, hColonKind⟩ := expect_sound (hHead.ends hEnds) (by decide) hColon
  have hHead := hHead.append hColon
  obtain ⟨_, hType, type, rfl, hTypeIn⟩ := TypeName.reader_sound (hHead.ends hEnds) hType
  have hHead := hHead.append hType
  split at hRead
  · next hAssign =>
    simp only [bind_eq_ok, next_eq_ok, expect_eq_ok, pure_eq_ok] at hRead
    obtain ⟨equals, _, ⟨rfl, rfl⟩, value, _, hValue, _, _, ⟨rfl, rfl⟩, semicolon, _, hSemicolon,
      rfl, rfl⟩ := hRead
    have hEquals := Cursor.passes_advance (hHead.ends hEnds) (by rw [hAssign]; decide)
    have hHead := hHead.append hEquals
    obtain ⟨tokens, hTokens, hIn, hLast⟩ := value_sound hExpr (hHead.ends hEnds) hValue hSemicolon
    exact ⟨_, hHead.append hTokens,
      .varDeclTo hStart hNameKind hColonKind hTypeIn hAssign hIn hLast⟩
  · simp only [bind_eq_ok, expect_eq_ok, pure_eq_ok] at hRead
    obtain ⟨_, _, ⟨rfl, rfl⟩, semicolon, _, hSemicolon, rfl, rfl⟩ := hRead
    obtain ⟨hSemicolon, hLast⟩ := expect_sound (hHead.ends hEnds) (by decide) hSemicolon
    exact ⟨_, hHead.append hSemicolon, .varDecl hStart hNameKind hColonKind hTypeIn hLast⟩

theorem readConst_sound (hEnds : c.Ends) (hStart : c.kind = .constWord)
    (hRead : readConst expr c = .ok s c') : ∃ passed, c.Passes passed c' ∧ StmtIn passed s := by
  simp only [readConst, bind_eq_ok, next_eq_ok, expectFor_eq_ok, expect_eq_ok, pure_eq_ok] at hRead
  obtain ⟨start, _, ⟨rfl, rfl⟩, name, _, hName, equals, _, hEquals, value, _, hValue, semicolon, _,
    hSemicolon, rfl, rfl⟩ := hRead
  have hFirst := Cursor.passes_advance hEnds (by rw [hStart]; decide)
  obtain ⟨hName, hNameKind⟩ := expect_sound (hFirst.ends hEnds) (by decide) hName
  have hHead := hFirst.append hName
  obtain ⟨hEquals, hAssign⟩ := expect_sound (hHead.ends hEnds) (by decide) hEquals
  have hHead := hHead.append hEquals
  obtain ⟨tokens, hTokens, hIn, hLast⟩ := value_sound hExpr (hHead.ends hEnds) hValue hSemicolon
  exact ⟨_, hHead.append hTokens, .constDecl hStart hNameKind hAssign hIn hLast⟩

theorem readValue_sound (make : Expr → UInt32 → Stmt) (hEnds : c.Ends) (hKind : c.kind ≠ .eof)
    (hMake : ∀ {tokens : List Token} {e : Expr} {semicolon : Token}, ExprIn .logical tokens e →
      semicolon.kind = .semicolon →
      StmtIn (c.current :: (tokens ++ [semicolon])) (make e c.current.line))
    (hRead : readValue expr make c = .ok s c') :
    ∃ passed, c.Passes passed c' ∧ StmtIn passed s := by
  simp only [readValue, bind_eq_ok, next_eq_ok, expect_eq_ok, pure_eq_ok] at hRead
  obtain ⟨start, _, ⟨rfl, rfl⟩, value, _, hValue, semicolon, _, hSemicolon, rfl, rfl⟩ := hRead
  have hFirst := Cursor.passes_advance hEnds hKind
  obtain ⟨tokens, hTokens, hIn, hLast⟩ := value_sound hExpr (hFirst.ends hEnds) hValue hSemicolon
  exact ⟨_, hFirst.append hTokens, hMake hIn hLast⟩

theorem readAssign_sound (hEnds : c.Ends) (hStart : c.kind = .identifier)
    (hRead : readAssign expr c = .ok s c') : ∃ passed, c.Passes passed c' ∧ StmtIn passed s := by
  simp only [readAssign, bind_eq_ok, nextKind_eq_ok] at hRead
  obtain ⟨k, _, ⟨rfl, rfl⟩, hRead⟩ := hRead
  split at hRead
  · next hAssign =>
    simp only [bind_eq_ok, next_eq_ok, expect_eq_ok, pure_eq_ok] at hRead
    obtain ⟨target, _, ⟨rfl, rfl⟩, equals, _, ⟨rfl, rfl⟩, value, _, hValue, semicolon, _,
      hSemicolon, rfl, rfl⟩ := hRead
    have hFirst := Cursor.passes_advance hEnds (by rw [hStart]; decide)
    have hEquals := Cursor.passes_advance (hFirst.ends hEnds) (by
      rw [show c.advance.kind = _ from hAssign]; decide)
    have hHead := hFirst.append hEquals
    obtain ⟨tokens, hTokens, hIn, hLast⟩ := value_sound hExpr (hHead.ends hEnds) hValue hSemicolon
    exact ⟨_, hHead.append hTokens, .assign hStart hAssign hIn hLast⟩
  · exact absurd hRead failFor_ne_ok

variable {block : Reader Block} (hBlock : Sound block BlockIn)

include hBlock

theorem readLoop_sound (hEnds : c.Ends) (hStart : c.kind = .whileWord)
    (hRead : readLoop expr block c = .ok s c') :
    ∃ passed, c.Passes passed c' ∧ StmtIn passed s := by
  simp only [readLoop, bind_eq_ok, next_eq_ok, pure_eq_ok] at hRead
  obtain ⟨start, _, ⟨rfl, rfl⟩, condition, _, hCondition, body, _, hBody, rfl, rfl⟩ := hRead
  have hFirst := Cursor.passes_advance hEnds (by rw [hStart]; decide)
  obtain ⟨tokens, hTokens, hIn⟩ := hExpr.lowest (hFirst.ends hEnds) hCondition
  obtain ⟨others, hOthers, hBodyIn⟩ := hBlock (hTokens.ends (hFirst.ends hEnds)) hBody
  exact ⟨_, hFirst.cons (hTokens.append hOthers), .loop hStart hIn hBodyIn⟩

theorem readBranch_sound (steps : Nat) (hEnds : c.Ends) (hStart : c.kind = .ifWord)
    (hRead : readBranch expr block steps c = .ok s c') :
    ∃ passed, c.Passes passed c' ∧ BranchIn passed s := by
  induction steps generalizing c s with
  | zero => exact absurd hRead exhausted_ne_ok
  | succ steps ih =>
    simp only [readBranch, bind_eq_ok, next_eq_ok, kind_eq_ok] at hRead
    obtain ⟨start, _, ⟨rfl, rfl⟩, condition, _, hCondition, thenBody, c₁, hThen, k, _, ⟨rfl, rfl⟩,
      hRead⟩ := hRead
    have hFirst := Cursor.passes_advance hEnds (by rw [hStart]; decide)
    obtain ⟨tokens, hTokens, hIn⟩ := hExpr.lowest (hFirst.ends hEnds) hCondition
    obtain ⟨others, hOthers, hThenIn⟩ := hBlock (hTokens.ends (hFirst.ends hEnds)) hThen
    have hEnds₁ := hOthers.ends (hTokens.ends (hFirst.ends hEnds))
    split at hRead
    · next hElse =>
      simp only [bind_eq_ok, next_eq_ok, kind_eq_ok] at hRead
      obtain ⟨elseToken, _, ⟨rfl, rfl⟩, k, _, ⟨rfl, rfl⟩, hRead⟩ := hRead
      have hElseToken := Cursor.passes_advance hEnds₁ (by rw [hElse]; decide)
      split at hRead
      · next hIf =>
        simp only [bind_eq_ok, pure_eq_ok] at hRead
        obtain ⟨inner, _, hInner, rfl, rfl⟩ := hRead
        obtain ⟨more, hMore, hBranchIn⟩ := ih (hElseToken.ends hEnds₁) hIf hInner
        exact ⟨_, hFirst.cons (hTokens.append (hOthers.append (hElseToken.cons hMore))),
          .branch hStart hIn hThenIn (.branch hElse hBranchIn)⟩
      · simp only [bind_eq_ok, pure_eq_ok] at hRead
        obtain ⟨elseBody, _, hElseBody, rfl, rfl⟩ := hRead
        obtain ⟨more, hMore, hElseIn⟩ := hBlock (hElseToken.ends hEnds₁) hElseBody
        exact ⟨_, hFirst.cons (hTokens.append (hOthers.append (hElseToken.cons hMore))),
          .branch hStart hIn hThenIn (.block hElse hElseIn)⟩
    · simp only [pure_eq_ok] at hRead
      obtain ⟨rfl, rfl⟩ := hRead
      rw [← List.append_nil others] at hOthers
      exact ⟨_, hFirst.cons (hTokens.append hOthers), .branch hStart hIn hThenIn .missing⟩

omit hExpr in
theorem readFn_sound (steps : Nat) (hEnds : c.Ends) (hStart : c.kind = .fnWord)
    (hRead : readFn block steps c = .ok s c') : ∃ passed, c.Passes passed c' ∧ StmtIn passed s := by
  simp only [readFn, bind_eq_ok, next_eq_ok, expectFor_eq_ok, pure_eq_ok] at hRead
  obtain ⟨start, _, ⟨rfl, rfl⟩, name, _, hName, parameters, _, hParameters, arrow, _, hArrow,
    typeName, _, hType, body, _, hBody, rfl, rfl⟩ := hRead
  have hFirst := Cursor.passes_advance hEnds (by rw [hStart]; decide)
  obtain ⟨hName, hNameKind⟩ := expect_sound (hFirst.ends hEnds) (by decide) hName
  have hHead := hFirst.append hName
  obtain ⟨tokens, hTokens, hIn⟩ :=
    parenthesised_sound Parameter.reader_sound steps (hHead.ends hEnds) hParameters
  have hHead' := hHead.append hTokens
  obtain ⟨hArrow, hArrowKind⟩ := expect_sound (hHead'.ends hEnds) (by decide) hArrow
  have hHead' := hHead'.append hArrow
  obtain ⟨_, hType, type, rfl, hTypeIn⟩ := TypeName.reader_sound (hHead'.ends hEnds) hType
  obtain ⟨others, hOthers, hBodyIn⟩ := hBlock (hType.ends (hHead'.ends hEnds)) hBody
  exact ⟨_, hHead.append (hTokens.append (hArrow.append (hType.append hOthers))),
    .fnDecl hStart hNameKind hIn hArrowKind hTypeIn hBodyIn⟩

end Sound

theorem readForm_sound {expr : Power → Reader Expr} {stmt : Reader Stmt}
    (hExpr : Expr.SoundReader expr) (hStmt : Sound stmt StmtIn) (steps : Nat) {form : StmtForm}
    {c c' : Cursor} {s : Stmt} (hEnds : c.Ends) (hStart : form.start? = some c.kind)
    (hRead : readForm expr stmt steps form c = .ok s c') :
    ∃ passed, c.Passes passed c' ∧ StmtIn passed s := by
  have hBlock : Sound (Block.reader stmt steps) BlockIn := Block.reader_sound hStmt steps
  cases form with
  | any => cases hStart
  | varDecl => exact readVar_sound hExpr hEnds (Option.some.inj hStart).symm hRead
  | constDecl => exact readConst_sound hExpr hEnds (Option.some.inj hStart).symm hRead
  | echo =>
    have hEcho : c.kind = .echoWord := (Option.some.inj hStart).symm
    exact readValue_sound hExpr .echo hEnds (by rw [hEcho]; decide) (.echo hEcho) hRead
  | branch =>
    obtain ⟨passed, hPassed, hIn⟩ :=
      readBranch_sound hExpr hBlock steps hEnds (Option.some.inj hStart).symm hRead
    exact ⟨passed, hPassed, .branch hIn⟩
  | loop => exact readLoop_sound hExpr hBlock hEnds (Option.some.inj hStart).symm hRead
  | fnDecl => exact readFn_sound hBlock steps hEnds (Option.some.inj hStart).symm hRead
  | ret =>
    have hReturn : c.kind = .returnWord := (Option.some.inj hStart).symm
    exact readValue_sound hExpr (fun value line => .ret value ⟨line, none⟩) hEnds
      (by rw [hReturn]; decide) (.ret hReturn) hRead
  | assign => exact readAssign_sound hExpr hEnds (Option.some.inj hStart).symm hRead

theorem reader_of_form {c : Cursor} {form : StmtForm}
    (hForm : Tables.standard.stmt? c.kind = some form) (steps : Nat) :
    reader .standard (steps + 1) c =
      readForm (Expr.reader .standard steps) (reader .standard steps) steps form c := by
  rw [reader, bind_of_eq_ok (kind_eq_ok.mpr ⟨rfl, rfl⟩), hForm]

theorem reader_sound (steps : Nat) : Sound (reader .standard steps) StmtIn := by
  induction steps with
  | zero => exact fun _ hRead => absurd hRead exhausted_ne_ok
  | succ steps ih =>
    intro c c' s hEnds hRead
    cases hForm : Tables.standard.stmt? c.kind with
    | none =>
      rw [reader, bind_of_eq_ok (kind_eq_ok.mpr ⟨rfl, rfl⟩), hForm] at hRead
      exact absurd hRead failFor_ne_ok
    | some form =>
      rw [reader_of_form hForm] at hRead
      exact readForm_sound (Expr.reader_sound steps) ih steps hEnds
        (Tables.standard_stmt?_eq_some.mp hForm) hRead

end Stmt

theorem Block.readAll_sound {stmt : Reader Stmt} (hStmt : Sound stmt StmtIn) (steps : Nat)
    {c c' : Cursor} {body : List Stmt} (hEnds : c.Ends)
    (hRead : Block.readAll stmt steps c = .ok body c') :
    ∃ passed, c.Passes passed c' ∧ StmtsIn passed body ∧ c'.kind = .eof := by
  induction steps generalizing c body with
  | zero => exact absurd hRead exhausted_ne_ok
  | succ steps ih =>
    rw [Block.readAll, bind_of_eq_ok (kind_eq_ok.mpr ⟨rfl, rfl⟩)] at hRead
    split at hRead
    · next hEof =>
      simp only [pure_eq_ok] at hRead
      obtain ⟨rfl, rfl⟩ := hRead
      exact ⟨[], .refl c, .nil, hEof⟩
    · simp only [bind_eq_ok, pure_eq_ok] at hRead
      obtain ⟨first, _, hFirst, others, _, hOthers, rfl, rfl⟩ := hRead
      obtain ⟨tokens, hTokens, hIn⟩ := hStmt hEnds hFirst
      obtain ⟨more, hMore, hAll, hEof⟩ := ih (hTokens.ends hEnds) hOthers
      exact ⟨_, hTokens.append hMore, .cons hIn hAll, hEof⟩

/-! ## Completeness -/

theorem TypeName.reader_complete {token : Token} {typeName : TypeName} {passed : List Token}
    {c c' : Cursor} (hIn : TypeNameIn token typeName) (hPassed : c.Passes (token :: passed) c') :
    TypeName.reader c = .ok typeName c.advance := by
  cases hIn with
  | name hKind =>
    rw [TypeName.reader, bind_of_eq_ok (expectFor_complete hPassed hKind)]
    rfl

theorem Parameter.reader_complete (bound : Nat) :
    Complete Parameter.reader ParameterIn bound fun _ => True := by
  intro c c' tokens parameter hIn _ hPassed _
  cases hIn with
  | parameter hName hColon hType =>
    have hRest := hPassed.uncons.2.2
    have hLast := hRest.uncons.2.2
    rw [Parameter.reader, bind_of_eq_ok (expectFor_complete hPassed hName),
      bind_of_eq_ok (expect_complete hRest hColon),
      bind_of_eq_ok (TypeName.reader_complete hType hLast), hLast.uncons.2.2.nil]
    rfl

/-- A statement begins with a token that begins statements. -/
theorem Stmt.head_of_stmtIn {tokens : List Token} {s : Stmt} (hIn : StmtIn tokens s) :
    ∃ token others form, tokens = token :: others ∧
      Tables.standard.stmt? token.kind = some form := by
  cases hIn with
  | varDecl hStart => exact ⟨_, _, .varDecl, rfl, by rw [hStart]; rfl⟩
  | varDeclTo hStart => exact ⟨_, _, .varDecl, rfl, by rw [hStart]; rfl⟩
  | constDecl hStart => exact ⟨_, _, .constDecl, rfl, by rw [hStart]; rfl⟩
  | echo hStart => exact ⟨_, _, .echo, rfl, by rw [hStart]; rfl⟩
  | branch hBranch =>
    cases hBranch with
    | branch hStart => exact ⟨_, _, .branch, rfl, by rw [hStart]; rfl⟩
  | loop hStart => exact ⟨_, _, .loop, rfl, by rw [hStart]; rfl⟩
  | fnDecl hStart => exact ⟨_, _, .fnDecl, rfl, by rw [hStart]; rfl⟩
  | ret hStart => exact ⟨_, _, .ret, rfl, by rw [hStart]; rfl⟩
  | assign hStart => exact ⟨_, _, .assign, rfl, by rw [hStart]; rfl⟩

/-- The token under a cursor that passes statements begins one of them, if there is one. -/
theorem Block.kind_of_stmtsIn {tokens : List Token} {body : List Stmt} {c c' : Cursor}
    (hIn : StmtsIn tokens body) (hPassed : c.Passes tokens c') :
    c = c' ∨ ∃ form, Tables.standard.stmt? c.kind = some form := by
  cases hIn with
  | nil => exact .inl hPassed.nil
  | cons hFirst _ =>
    obtain ⟨token, others, form, rfl, hForm⟩ := Stmt.head_of_stmtIn hFirst
    rw [List.cons_append] at hPassed
    exact .inr ⟨form, by rw [hPassed.kind_eq, hForm]⟩

/-- A loop that ends at one kind of token and reads a statement at every token that begins one reads
all statements. -/
theorem Block.repeat_complete {stmt : Reader Stmt} {loop : Nat → Reader (List Stmt)}
    {bound : Nat} {last : Kind} (hStmt : Complete stmt StmtIn bound (· ≠ .elseWord))
    (hLast : last ≠ .elseWord)
    (hDone : ∀ {steps : Nat} {c : Cursor}, c.kind = last → loop (steps + 1) c = .ok [] c)
    (hMore : ∀ {steps : Nat} {c : Cursor} {form : StmtForm},
      Tables.standard.stmt? c.kind = some form → loop (steps + 1) c = (do
        let first ← stmt
        let others ← loop steps
        return first :: others) c)
    {body : List Stmt} {tokens : List Token} (hIn : StmtsIn tokens body)
    (hBound : tokens.length < bound) {steps : Nat} (hSteps : tokens.length < steps)
    {c c' : Cursor} (hPassed : c.Passes tokens c') (hEnd : c'.kind = last) :
    loop steps c = .ok body c' := by
  induction body generalizing tokens steps c with
  | nil =>
    obtain ⟨steps, rfl⟩ : ∃ n, steps = n + 1 := ⟨steps - 1, by omega⟩
    cases hIn
    obtain rfl := hPassed.nil
    exact hDone hEnd
  | cons first body ih =>
    obtain ⟨steps, rfl⟩ : ∃ n, steps = n + 1 := ⟨steps - 1, by omega⟩
    cases hIn with
    | @cons tokens others _ _ hFirst hOthers =>
      obtain ⟨c₁, hTokens, hRest⟩ := hPassed.split
      have hFollow : c₁.kind ≠ .elseWord := by
        rcases kind_of_stmtsIn hOthers hRest with rfl | ⟨form, hForm⟩
        · rwa [hEnd]
        · exact (Tables.standard_stmt?_ne hForm).2.2
      obtain ⟨token, more, form, rfl, hForm⟩ := Stmt.head_of_stmtIn hFirst
      simp only [List.length_append, List.length_cons] at hBound hSteps
      have hRead : stmt c = .ok first c₁ :=
        hStmt hFirst (by rw [List.length_cons]; omega) hTokens hFollow
      rw [hMore (by rw [hTokens.kind_eq, hForm]), bind_of_eq_ok hRead,
        bind_of_eq_ok (ih hOthers (by omega) (by omega) hRest)]
      rfl

section Complete

variable {stmt : Reader Stmt} {bound : Nat} (hStmt : Complete stmt StmtIn bound (· ≠ .elseWord))
  {tokens : List Token} {body : List Stmt} {c c' : Cursor}

include hStmt

theorem Block.readBody_complete (hIn : StmtsIn tokens body) (hBound : tokens.length < bound)
    (hPassed : c.Passes tokens c') (hEnd : c'.kind = .closeCurly) :
    Block.readBody stmt bound c = .ok body c' := by
  refine Block.repeat_complete hStmt (by decide) ?_ ?_ hIn hBound hBound hPassed hEnd
  · intro steps c hKind
    rw [Block.readBody_succ, if_pos hKind]
  · intro steps c form hForm
    have hNe := Tables.standard_stmt?_ne hForm
    rw [Block.readBody_succ, if_neg hNe.1, if_neg hNe.2.1]

theorem Block.readAll_complete (hIn : StmtsIn tokens body) (hBound : tokens.length < bound)
    (hPassed : c.Passes tokens c') (hEnd : c'.kind = .eof) :
    Block.readAll stmt bound c = .ok body c' := by
  refine Block.repeat_complete hStmt (by decide) ?_ ?_ hIn hBound hBound hPassed hEnd
  · intro steps c hKind
    rw [Block.readAll, bind_of_eq_ok (kind_eq_ok.mpr ⟨rfl, rfl⟩), if_pos hKind]
    rfl
  · intro steps c form hForm
    rw [Block.readAll, bind_of_eq_ok (kind_eq_ok.mpr ⟨rfl, rfl⟩),
      if_neg (Tables.standard_stmt?_ne hForm).2.1]

theorem Block.reader_complete : Complete (Block.reader stmt bound) BlockIn bound fun _ => True := by
  intro c c' tokens block hIn hBound hPassed _
  cases hIn with
  | block hOpen hBody hClose =>
    simp only [List.length_cons, List.length_append, List.length_nil] at hBound
    obtain ⟨c₁, hTokens, hEnd⟩ := hPassed.uncons.2.2.split
    rw [Block.reader, bind_of_eq_ok (expect_complete hPassed hOpen),
      bind_of_eq_ok (Block.readBody_complete hStmt hBody (by omega) hTokens
        (hEnd.kind_eq.trans hClose)),
      bind_of_eq_ok (expect_complete hEnd hClose), hEnd.uncons.2.2.nil]
    rfl

end Complete

namespace Stmt

section Complete

variable {expr : Power → Reader Expr} {bound : Nat} (hExpr : Expr.CompleteReader expr bound)
  {start name equals semicolon : Token} {tokens : List Token} {value : Expr} {c c' : Cursor}

include hExpr

/-- The expression at the end of a statement and its semicolon. -/
theorem value_complete (hIn : ExprIn .logical tokens value) (hBound : tokens.length < bound)
    (hKind : semicolon.kind = .semicolon) (hPassed : c.Passes (tokens ++ [semicolon]) c') :
    ∃ c₁, expr .lowest c = .ok value c₁ ∧ expect .semicolon c₁ = .ok semicolon c' := by
  obtain ⟨c₁, hTokens, hLast⟩ := hPassed.split
  have hFollow : Expr.Follows .lowest c₁.kind := by
    rw [hLast.kind_eq, hKind]
    exact ⟨by decide, by decide⟩
  refine ⟨c₁, hExpr .lowest hIn hBound hTokens hFollow, ?_⟩
  rw [expect_complete hLast hKind, hLast.uncons.2.2.nil]

theorem readVar_complete {colon type : Token} {typeName : TypeName}
    (hName : name.kind = .identifier) (hColon : colon.kind = .colon)
    (hType : TypeNameIn type typeName) (hEquals : equals.kind = .assign)
    (hIn : ExprIn .logical tokens value)
    (hBound : tokens.length < bound) (hLast : semicolon.kind = .semicolon)
    (hPassed : c.Passes (start :: name :: colon :: type :: equals :: (tokens ++ [semicolon])) c') :
    readVar expr c = .ok (.varDecl name.value typeName (some value) ⟨start.line, none⟩) c' := by
  have hRest₁ := hPassed.uncons.2.2
  have hRest₂ := hRest₁.uncons.2.2
  have hRest₃ := hRest₂.uncons.2.2
  have hRest₄ := hRest₃.uncons.2.2
  obtain ⟨c₁, hValue, hSemicolon⟩ := value_complete hExpr hIn hBound hLast hRest₄.uncons.2.2
  rw [readVar, bind_of_eq_ok (next_complete hPassed),
    bind_of_eq_ok (expectFor_complete hRest₁ hName),
    bind_of_eq_ok (expectFor_complete hRest₂ hColon),
    bind_of_eq_ok (TypeName.reader_complete hType hRest₃),
    bind_of_eq_ok (kind_eq_ok.mpr ⟨rfl, rfl⟩), if_pos (hRest₄.kind_eq.trans hEquals),
    bind_of_eq_ok (next_complete hRest₄), bind_of_eq_ok hValue,
    bind_of_eq_ok (pure_eq_ok.mpr ⟨rfl, rfl⟩)]
  exact bind_of_eq_ok hSemicolon

omit hExpr in
theorem readVar_complete_of_none {colon type : Token} {typeName : TypeName}
    (hName : name.kind = .identifier) (hColon : colon.kind = .colon)
    (hType : TypeNameIn type typeName) (hLast : semicolon.kind = .semicolon)
    (hPassed : c.Passes [start, name, colon, type, semicolon] c') :
    readVar expr c = .ok (.varDecl name.value typeName none ⟨start.line, none⟩) c' := by
  have hRest₁ := hPassed.uncons.2.2
  have hRest₂ := hRest₁.uncons.2.2
  have hRest₃ := hRest₂.uncons.2.2
  have hRest₄ := hRest₃.uncons.2.2
  have hKind : ¬ c.advance.advance.advance.advance.kind = .assign := by
    rw [hRest₄.kind_eq, hLast]
    decide
  rw [readVar, bind_of_eq_ok (next_complete hPassed),
    bind_of_eq_ok (expectFor_complete hRest₁ hName),
    bind_of_eq_ok (expectFor_complete hRest₂ hColon),
    bind_of_eq_ok (TypeName.reader_complete hType hRest₃),
    bind_of_eq_ok (kind_eq_ok.mpr ⟨rfl, rfl⟩), if_neg hKind,
    bind_of_eq_ok (pure_eq_ok.mpr ⟨rfl, rfl⟩), ← hRest₄.uncons.2.2.nil]
  exact bind_of_eq_ok (expect_complete hRest₄ hLast)

theorem readConst_complete (hName : name.kind = .identifier) (hEquals : equals.kind = .assign)
    (hIn : ExprIn .logical tokens value) (hBound : tokens.length < bound)
    (hLast : semicolon.kind = .semicolon)
    (hPassed : c.Passes (start :: name :: equals :: (tokens ++ [semicolon])) c') :
    readConst expr c = .ok (.constDecl name.value value ⟨start.line, none⟩) c' := by
  have hRest₁ := hPassed.uncons.2.2
  have hRest₂ := hRest₁.uncons.2.2
  obtain ⟨c₁, hValue, hSemicolon⟩ := value_complete hExpr hIn hBound hLast hRest₂.uncons.2.2
  rw [readConst, bind_of_eq_ok (next_complete hPassed),
    bind_of_eq_ok (expectFor_complete hRest₁ hName),
    bind_of_eq_ok (expectFor_complete hRest₂ hEquals), bind_of_eq_ok hValue,
    bind_of_eq_ok hSemicolon]
  rfl

theorem readValue_complete (make : Expr → UInt32 → Stmt) (hIn : ExprIn .logical tokens value)
    (hBound : tokens.length < bound) (hLast : semicolon.kind = .semicolon)
    (hPassed : c.Passes (start :: (tokens ++ [semicolon])) c') :
    readValue expr make c = .ok (make value start.line) c' := by
  obtain ⟨c₁, hValue, hSemicolon⟩ := value_complete hExpr hIn hBound hLast hPassed.uncons.2.2
  rw [readValue, bind_of_eq_ok (next_complete hPassed), bind_of_eq_ok hValue,
    bind_of_eq_ok hSemicolon]
  rfl

theorem readAssign_complete (hEquals : equals.kind = .assign) (hIn : ExprIn .logical tokens value)
    (hBound : tokens.length < bound) (hLast : semicolon.kind = .semicolon)
    (hPassed : c.Passes (name :: equals :: (tokens ++ [semicolon])) c') :
    readAssign expr c =
      .ok (.assign ⟨⟨name.line, none⟩, name.value⟩ value ⟨name.line, none⟩) c' := by
  have hRest := hPassed.uncons.2.2
  have hKind : c.nextKind = .assign := hRest.kind_eq.trans hEquals
  obtain ⟨c₁, hValue, hSemicolon⟩ := value_complete hExpr hIn hBound hLast hRest.uncons.2.2
  rw [readAssign, bind_of_eq_ok (nextKind_eq_ok.mpr ⟨rfl, rfl⟩), if_pos hKind,
    bind_of_eq_ok (next_complete hPassed), bind_of_eq_ok (next_complete hRest),
    bind_of_eq_ok hValue, bind_of_eq_ok hSemicolon]
  rfl

variable {block : Reader Block} (hBlock : Complete block BlockIn bound fun _ => True)
  {others : List Token} {body : Block}

include hBlock

/-- A condition and the block after it. -/
theorem condition_complete (hIn : ExprIn .logical tokens value) (hBound : tokens.length < bound)
    (hBody : BlockIn others body) (hBound' : others.length < bound)
    {c₂ : Cursor} (hTokens : c.Passes tokens c') (hOthers : c'.Passes others c₂) :
    expr .lowest c = .ok value c' ∧ block c' = .ok body c₂ := by
  have hFollow : Expr.Follows .lowest c'.kind := by
    cases hBody with
    | block hOpen =>
      rw [hOthers.kind_eq, hOpen]
      exact ⟨by decide, by decide⟩
  exact ⟨hExpr .lowest hIn hBound hTokens hFollow, hBlock hBody hBound' hOthers trivial⟩

theorem readLoop_complete (hIn : ExprIn .logical tokens value) (hBody : BlockIn others body)
    (hBound : tokens.length + others.length < bound)
    (hPassed : c.Passes (start :: (tokens ++ others)) c') :
    readLoop expr block c = .ok (.loop value body start.line) c' := by
  obtain ⟨c₁, hTokens, hOthers⟩ := hPassed.uncons.2.2.split
  obtain ⟨hCondition, hRead⟩ :=
    condition_complete hExpr hBlock hIn (by omega) hBody (by omega) hTokens hOthers
  rw [readLoop, bind_of_eq_ok (next_complete hPassed), bind_of_eq_ok hCondition,
    bind_of_eq_ok hRead]
  rfl

/-- By induction on the steps, since each `else if` takes one of them. -/
theorem readBranch_complete {s : Stmt} (steps : Nat) (hBranch : BranchIn tokens s)
    (hBound : tokens.length ≤ bound) (hSteps : tokens.length ≤ steps)
    (hPassed : c.Passes tokens c') (hFollow : c'.kind ≠ .elseWord) :
    readBranch expr block steps c = .ok s c' := by
  induction steps generalizing tokens s c with
  | zero =>
    cases hBranch
    simp at hSteps
  | succ steps ih =>
    cases hBranch with
    | @branch start tokens thenTokens elseTokens condition thenBody elseBody _ hIn hThen hElse =>
      simp only [List.length_cons, List.length_append] at hBound hSteps
      obtain ⟨c₁, hTokens, hRest⟩ := hPassed.uncons.2.2.split
      obtain ⟨c₂, hThenTokens, hElseTokens⟩ := hRest.split
      obtain ⟨hCondition, hRead⟩ :=
        condition_complete hExpr hBlock hIn (by omega) hThen (by omega) hTokens hThenTokens
      rw [readBranch, bind_of_eq_ok (next_complete hPassed), bind_of_eq_ok hCondition,
        bind_of_eq_ok hRead, bind_of_eq_ok (kind_eq_ok.mpr ⟨rfl, rfl⟩)]
      cases hElse with
      | missing =>
        obtain rfl := hElseTokens.nil
        rw [if_neg hFollow]
        rfl
      | @block _ word others _ hWord hOther =>
        have hOthers := hElseTokens.uncons.2.2
        have hKind : ¬ c₂.advance.kind = .ifWord := by
          cases hOther with
          | block hOpen =>
            rw [hOthers.kind_eq, hOpen]
            decide
        rw [List.length_cons] at hBound
        rw [if_pos (hElseTokens.kind_eq.trans hWord), bind_of_eq_ok (next_complete hElseTokens),
          bind_of_eq_ok (kind_eq_ok.mpr ⟨rfl, rfl⟩), if_neg hKind,
          bind_of_eq_ok (hBlock hOther (by omega) hOthers trivial)]
        rfl
      | @branch _ word others inner hWord hInner =>
        have hOthers := hElseTokens.uncons.2.2
        have hKind : c₂.advance.kind = .ifWord := by
          cases hInner with
          | branch hIf => rw [hOthers.kind_eq, hIf]
        rw [List.length_cons] at hBound hSteps
        rw [if_pos (hElseTokens.kind_eq.trans hWord), bind_of_eq_ok (next_complete hElseTokens),
          bind_of_eq_ok (kind_eq_ok.mpr ⟨rfl, rfl⟩), if_pos hKind,
          bind_of_eq_ok (ih hInner (by omega) (by omega) hOthers)]
        rfl

omit hExpr in
theorem readFn_complete {arrow type : Token} {typeName : TypeName} {parameters : List Parameter}
    (hName : name.kind = .identifier) (hParameters : Parenthesised ParameterIn tokens parameters)
    (hArrow : arrow.kind = .arrow) (hType : TypeNameIn type typeName) (hBody : BlockIn others body)
    (hBound : tokens.length + others.length < bound)
    (hPassed : c.Passes (start :: name :: (tokens ++ arrow :: type :: others)) c') :
    readFn block bound c = .ok (.fnDecl name.value parameters typeName body start.line) c' := by
  have hRest := hPassed.uncons.2.2
  obtain ⟨c₁, hTokens, hRest₁⟩ := hRest.uncons.2.2.split
  have hRest₂ := hRest₁.uncons.2.2
  have hHead {tokens : List Token} {parameter : Parameter} (h : ParameterIn tokens parameter) :
      ∃ token others, tokens = token :: others ∧ token.kind ≠ .closeParen := by
    cases h with
    | parameter hKind => exact ⟨_, _, rfl, by rw [hKind]; decide⟩
  have hRead : parenthesised Parameter.reader bound c.advance.advance = .ok parameters c₁ :=
    parenthesised_complete (fun _ => True) (Parameter.reader_complete bound) trivial trivial hHead
      hParameters (by omega) hTokens trivial
  rw [readFn, bind_of_eq_ok (next_complete hPassed),
    bind_of_eq_ok (expectFor_complete hRest hName), bind_of_eq_ok hRead,
    bind_of_eq_ok (expectFor_complete hRest₁ hArrow),
    bind_of_eq_ok (TypeName.reader_complete hType hRest₂),
    bind_of_eq_ok (hBlock hBody (by omega) hRest₂.uncons.2.2 trivial)]
  rfl

end Complete

/-- The first token decides the form of a statement. -/
theorem reader_of_start {start : Token} {others : List Token} {k : Kind} {form : StmtForm}
    {s : Stmt} {steps : Nat} {c c' : Cursor} (hPassed : c.Passes (start :: others) c')
    (hStart : start.kind = k) (hForm : Tables.standard.stmt? k = some form)
    (hRead : readForm (Expr.reader .standard steps) (reader .standard steps) steps form c =
      .ok s c') : reader .standard (steps + 1) c = .ok s c' := by
  rw [reader_of_form (by rw [hPassed.kind_eq, hStart, hForm]), hRead]

theorem reader_complete (bound : Nat) :
    Complete (reader .standard bound) StmtIn bound (· ≠ .elseWord) := by
  induction bound with
  | zero => exact fun _ hBound => absurd hBound (Nat.not_lt_zero _)
  | succ bound ih =>
    intro c c' tokens s hIn hBound hPassed hFollow
    have hExpr := Expr.reader_complete bound
    have hBlock : Complete (Block.reader (reader .standard bound) bound) BlockIn bound
        fun _ => True := Block.reader_complete ih
    cases hIn with
    | varDecl hStart hName hColon hType hLast =>
      exact reader_of_start hPassed hStart rfl
        (readVar_complete_of_none hName hColon hType hLast hPassed)
    | varDeclTo hStart hName hColon hType hEquals hValue hLast =>
      simp only [List.length_cons, List.length_append] at hBound
      exact reader_of_start hPassed hStart rfl
        (readVar_complete hExpr hName hColon hType hEquals hValue (by omega) hLast hPassed)
    | constDecl hStart hName hEquals hValue hLast =>
      simp only [List.length_cons, List.length_append] at hBound
      exact reader_of_start hPassed hStart rfl
        (readConst_complete hExpr hName hEquals hValue (by omega) hLast hPassed)
    | echo hStart hValue hLast =>
      simp only [List.length_cons, List.length_append] at hBound
      exact reader_of_start hPassed hStart rfl
        (readValue_complete hExpr .echo hValue (by omega) hLast hPassed)
    | branch hBranch =>
      have hRead := readBranch_complete hExpr hBlock bound hBranch (Nat.le_of_lt_succ hBound)
        (Nat.le_of_lt_succ hBound) hPassed hFollow
      cases hBranch with
      | branch hStart => exact reader_of_start hPassed hStart rfl hRead
    | loop hStart hValue hBody =>
      simp only [List.length_cons, List.length_append] at hBound
      exact reader_of_start hPassed hStart rfl
        (readLoop_complete hExpr hBlock hValue hBody (by omega) hPassed)
    | fnDecl hStart hName hParameters hArrow hType hBody =>
      simp only [List.length_cons, List.length_append] at hBound
      exact reader_of_start hPassed hStart rfl
        (readFn_complete hBlock hName hParameters hArrow hType hBody (by omega) hPassed)
    | ret hStart hValue hLast =>
      simp only [List.length_cons, List.length_append] at hBound
      exact reader_of_start hPassed hStart rfl
        (readValue_complete hExpr (fun value line => .ret value ⟨line, none⟩) hValue (by omega)
          hLast hPassed)
    | assign hStart hEquals hValue hLast =>
      simp only [List.length_cons, List.length_append] at hBound
      exact reader_of_start hPassed hStart rfl
        (readAssign_complete hExpr hEquals hValue (by omega) hLast hPassed)

end Stmt

end Jingle.Syntax

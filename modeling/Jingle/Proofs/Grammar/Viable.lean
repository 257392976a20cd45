import Jingle.Proofs.Grammar.Program
import Jingle.Proofs.Grammar.Settled

/-!
# Faults at the first token that does not fit

The readers of the language settle wherever they have more steps than there are tokens before them.
So a list of tokens that is refused has been read as far as it makes sense: the tokens before the
one that is blamed begin a program, and no program begins with the blamed token and the next one
after them.

* `Expr.reader_settles` and `Stmt.reader_settles` say that the readers of the language settle.
* `Block.ofTokens_fault_first` says it of whole lists of tokens.
-/

namespace Jingle.Syntax

open Grammar Grammar.Reader
open Token (Kind)

/-! ## Expressions -/

namespace Expr

/-- Every stratum has expressions. -/
theorem exists_exprIn_sample (stratum : Stratum) : ∃ e, ExprIn stratum [sample .bool] e := by
  have hBool : ExprIn .unary [sample .bool] _ := .literal (.bool rfl)
  exact ⟨_, hBool.weaken stratum stratum.rank_le⟩

theorem begins_nil (stratum : Stratum) : Begins (ExprIn stratum) [] := by
  obtain ⟨e, hIn⟩ := exists_exprIn_sample stratum
  exact ⟨[sample .bool], e, by decide, hIn⟩

/-- Expressions settle if fewer tokens than the bound lie before the cursor. -/
def SettledReader (expr expr' : Power → Reader Expr) (bound : Nat) : Prop :=
  ∀ {power : Power} {c : Cursor}, c.Ends → c.rest.length < bound →
    Settles (expr power) (expr' power) (Begins (ExprIn power.above)) c

/-- A token that denotes no literal is blamed itself, whatever comes after it. -/
theorem readPrimary_eq_error {expr : Power → Reader Expr} {steps : Nat} {d : Cursor}
    {cause : Fault.Cause} (hName : ¬ d.current.kind = .identifier)
    (hValue : Literal.ofToken d.current = .error cause) :
    readPrimary expr steps d = .error ⟨cause, d.current.start⟩ d.advance := by
  rw [readPrimary, bind_of_eq_ok (next_eq_ok.mpr ⟨rfl, rfl⟩), if_neg hName, hValue]
  rfl

section Constructs

variable {expr expr' : Power → Reader Expr} {bound steps steps' : Nat}
  (hSound : SoundReader expr) (hExpr : SettledReader expr expr' bound)
  {c : Cursor} (hEnds : c.Ends) (hBound : c.rest.length ≤ bound)

include hExpr hEnds hBound

theorem readPrefixed_settles {op : UnaryOp} (hKind : c.kind ≠ .eof)
    (hOp : UnaryOp.ofKind? c.current.kind = some op) :
    Settles (readPrefixed expr) (readPrefixed expr') (Begins (ExprIn .unary)) c := by
  refine settles_next hEnds hKind fun hEnds₁ hLength => ?_
  simp only [hOp]
  refine (hExpr hEnds₁ (by omega)).bind_pure ?_ _
  rintro tokens ⟨more, operand, hMore, hIn⟩
  exact ⟨more, _, hMore, .prefixed hOp hIn⟩

theorem readBinary_settles {stratum : Stratum} {left : Expr} {op : BinaryOp} {first : List Token}
    (hOp : stratum.operator? c.kind = some op) (hLeft : ExprIn stratum first left) :
    Settles (readBinary expr stratum.power left) (readBinary expr' stratum.power left)
      (fun more => Begins (ExprIn stratum) (first ++ more)) c := by
  obtain ⟨-, hBinary, -, hKind, -⟩ := Stratum.operator?_eq_some hOp
  have hCurrent : BinaryOp.ofKind? c.current.kind = some op := hBinary
  refine settles_next hEnds hKind fun hEnds₁ hLength => ?_
  simp only [hCurrent]
  refine (hExpr hEnds₁ (by omega)).bind_pure ?_ _
  rintro tokens ⟨more, right, hMore, hIn⟩
  rw [Stratum.power_above] at hIn
  refine .of_eq (hLeft.extend hOp hIn) hMore ?_
  rw [List.append_assoc, List.cons_append]

include hSound

theorem readCall_settles (hLe : steps ≤ steps') (hSteps : c.rest.length ≤ steps) {callee : Token}
    (hName : callee.kind = .identifier) :
    Settles (readCall expr steps callee) (readCall expr' steps' callee)
      (fun more => Begins (ExprIn .unary) (callee :: more)) c := by
  refine (parenthesised_settles hSound.lowest hExpr hLe hEnds hBound hSteps).bind_pure ?_ _
  rintro tokens ⟨more, arguments, hMore, hIn⟩
  exact ⟨more, _, hMore, .call hName hIn⟩

theorem readPrimary_settles (hLe : steps ≤ steps') (hSteps : c.rest.length ≤ steps)
    (hKind : c.kind ≠ .eof) :
    Settles (readPrimary expr steps) (readPrimary expr' steps') (Begins (ExprIn .unary)) c := by
  by_cases hName : c.current.kind = .identifier
  · refine settles_next hEnds hKind fun hEnds₁ hLength => ?_
    simp only [if_pos hName]
    refine settles_ite (fun _ => ?_) fun _ => settles_pure _
    exact readCall_settles hSound hExpr hEnds₁ (by omega) hLe (by omega) hName
  · cases hValue : Literal.ofToken c.current with
    | ok value =>
      refine settles_next hEnds hKind fun _ _ => ?_
      simp only [if_neg hName, hValue]
      exact settles_pure _
    | error cause =>
      refine settles_stop (readPrimary_eq_error hName hValue) rfl (begins_nil _) ?_
      intro d hHeralds
      have hCurrent := hHeralds.current_eq
      rw [← hCurrent] at hName hValue ⊢
      exact ⟨_, readPrimary_eq_error hName hValue⟩

theorem readGrouped_settles (hOpen : c.kind = .openParen) :
    Settles (readGrouped expr) (readGrouped expr') (Begins (ExprIn .unary)) c := by
  refine settles_next hEnds (by rw [hOpen]; decide) fun hEnds₁ hLength => ?_
  exact (hExpr hEnds₁ (by omega)).closed hSound.lowest hEnds₁ (by decide) [c.current]
    fun hIn hClose => .grouped hOpen hIn hClose

theorem readOperand_settles (hLe : steps ≤ steps') (hSteps : c.rest.length ≤ steps) :
    Settles (readOperand expr steps .standard) (readOperand expr' steps' .standard)
      (Begins (ExprIn .unary)) c := by
  apply settles_kind
  cases hForm : Tables.standard.operand? c.kind with
  | none => exact settles_failFor _ (begins_nil _)
  | some form =>
    have hKind := Tables.standard_operand?_ne_eof hForm
    cases form with
    | primary => exact readPrimary_settles hSound hExpr hEnds hBound hLe hSteps hKind
    | prefixed =>
      obtain ⟨op, hOp⟩ := Tables.standard_operand?_eq_prefixed hForm
      exact readPrefixed_settles hExpr hEnds hBound hKind hOp
    | grouped =>
      exact readGrouped_settles hSound hExpr hEnds hBound (Tables.standard_operand?_grouped hForm)

/-- As for soundness, the operator under the cursor does not bind more strongly than what has been
read so far. -/
theorem readOperators_settles {power : Power} {stratum : Stratum} {left : Expr}
    {first : List Token} (hLe : steps ≤ steps') (hSteps : c.rest.length < steps)
    (hLeft : ExprIn stratum first left)
    (hNext : Tables.standard.power c.kind ≤ stratum.power) :
    Settles (readOperators .standard expr power steps left)
      (readOperators .standard expr' power steps' left)
      (fun more => Begins (ExprIn power.above) (first ++ more)) c := by
  induction steps generalizing steps' stratum left first c with
  | zero => omega
  | succ steps ih =>
    obtain ⟨steps', rfl⟩ : ∃ n, steps' = n + 1 := ⟨steps' - 1, by omega⟩
    apply settles_kind
    dsimp only
    by_cases hStop : Tables.standard.power c.kind ≤ power
    · rw [if_pos hStop, if_pos hStop]
      exact settles_pure _
    · rw [if_neg hStop, if_neg hStop]
      have hBinds : Tables.standard.power c.kind ≠ .lowest := by
        intro hLowest
        rw [hLowest] at hStop
        exact hStop (Nat.zero_le _)
      obtain ⟨chain, op, -, hPower, hOp⟩ := (Tables.standard_power c.kind).resolve_left hBinds
      rw [hPower] at hNext hStop ⊢
      have hChain := hLeft.weaken chain hNext
      have hAbove := Power.rank_above_le hStop
      refine (readBinary_settles hExpr hEnds hBound hOp hChain).bind ?_ ?_
      · rintro tokens ⟨more, e, hMore, hIn⟩
        exact ⟨more, e, hMore, hIn.weaken _ hAbove⟩
      · intro extended c₁ hRead
        obtain ⟨tokens, hTokens, hIn, hAfter⟩ := readBinary_sound hSound hEnds hOp hChain hRead
        have hLength := hTokens.length_eq
        rw [List.length_cons] at hLength
        refine ⟨_, hTokens, ?_⟩
        simp only [← List.append_assoc]
        exact ih (hTokens.ends hEnds) (by omega) (by omega) (by omega) hIn hAfter

end Constructs

/-- A reader of expressions settles if it has more steps than there are tokens before it. -/
theorem reader_settles {steps steps' : Nat} (hLe : steps ≤ steps') :
    SettledReader (reader .standard steps) (reader .standard steps') steps := by
  induction steps generalizing steps' with
  | zero => exact fun _ hBound => absurd hBound (Nat.not_lt_zero _)
  | succ steps ih =>
    intro power c hEnds hBound
    obtain ⟨steps', rfl⟩ : ∃ n, steps' = n + 1 := ⟨steps' - 1, by omega⟩
    have hSound : SoundReader (reader .standard steps) := reader_sound steps
    have hLe' : steps ≤ steps' := by omega
    refine (readOperand_settles hSound (ih hLe') hEnds (by omega) hLe' (by omega)).bind ?_ ?_
    · rintro tokens ⟨more, e, hMore, hIn⟩
      exact ⟨more, e, hMore, hIn.weaken _ power.above.rank_le⟩
    · intro left c₁ hRead
      obtain ⟨first, hFirst, hLeft⟩ := readOperand_sound hSound steps hEnds hRead
      have hLength := hFirst.length_eq
      have hPositive := hLeft.length_pos
      exact ⟨first, hFirst, readOperators_settles hSound (ih hLe') (hFirst.ends hEnds) (by omega)
        hLe' (by omega) hLeft (Power.le_unary _)⟩

end Expr

/-! ## Statements -/

theorem TypeName.reader_settles {c : Cursor} (hEnds : c.Ends) :
    Settles TypeName.reader TypeName.reader (· = []) c := by
  refine settles_expectFor hEnds (by decide) ?_ (fun _ _ _ => ?_) _
  · rfl
  · exact settles_pure _

theorem Parameter.reader_settles {c : Cursor} (hEnds : c.Ends) :
    Settles Parameter.reader Parameter.reader (Begins ParameterIn) c := by
  refine settles_expectFor hEnds (by decide) ?_ (fun hName hEnds₁ _ => ?_) _
  · exact ⟨[sample .identifier, sample .colon, sample .identifier], _, by decide,
      .parameter rfl rfl (.name rfl)⟩
  refine settles_expect hEnds₁ (by decide) ?_ fun hColon hEnds₂ _ => ?_
  · exact ⟨[sample .colon, sample .identifier], _, by decide, .parameter hName rfl (.name rfl)⟩
  refine (TypeName.reader_settles hEnds₂).bind_pure ?_ _
  rintro _ rfl
  exact ⟨[sample .identifier], _, by decide, .parameter hName hColon (.name rfl)⟩

namespace Stmt

/-- Statements settle if fewer tokens than the bound lie before the cursor. -/
def SettledReader (stmt stmt' : Reader Stmt) (bound : Nat) : Prop :=
  ∀ {c : Cursor}, c.Ends → c.rest.length < bound → Settles stmt stmt' (Begins StmtIn) c

end Stmt

namespace Block

/-- Blocks settle if no more tokens than the bound lie before the cursor. -/
def SettledReader (block block' : Reader Block) (bound : Nat) : Prop :=
  ∀ {c : Cursor}, c.Ends → c.rest.length ≤ bound → Settles block block' (Begins BlockIn) c

theorem blockIn_braces : BlockIn [sample .openCurly, sample .closeCurly] ⟨0, []⟩ :=
  .block rfl .nil rfl

theorem braces_ne_eof :
    ∀ token ∈ [sample .openCurly, sample .closeCurly], token.kind ≠ .eof := by
  decide

section Repeat

variable {stmt stmt' : Reader Stmt} {bound : Nat} (hSound : Sound stmt StmtIn)
  (hStmt : Stmt.SettledReader stmt stmt' bound)

include hSound hStmt

/-- A loop that reads one statement after another settles if it settles wherever it reads no
statement. -/
theorem repeat_settles {loop loop' : Nat → Reader (List Stmt)}
    (hLoop : ∀ {steps steps' : Nat} {c : Cursor},
      Settles (do let first ← stmt; let others ← loop steps; return first :: others)
        (do let first ← stmt'; let others ← loop' steps'; return first :: others)
        (Begins StmtsIn) c →
      Settles (loop (steps + 1)) (loop' (steps' + 1)) (Begins StmtsIn) c)
    {steps steps' : Nat} (hLe : steps ≤ steps') {c : Cursor} (hEnds : c.Ends)
    (hBound : c.rest.length < bound) (hSteps : c.rest.length < steps) :
    Settles (loop steps) (loop' steps') (Begins StmtsIn) c := by
  induction steps generalizing steps' c with
  | zero => omega
  | succ steps ih =>
    obtain ⟨steps', rfl⟩ : ∃ n, steps' = n + 1 := ⟨steps' - 1, by omega⟩
    apply hLoop
    refine (hStmt hEnds hBound).bind ?_ ?_
    · rintro tokens ⟨more, s, hMore, hIn⟩
      exact .of_eq (.cons hIn .nil) hMore (List.append_nil _)
    · intro first c₁ hRead
      obtain ⟨passed, hPassed, hIn⟩ := hSound hEnds hRead
      have hLength := hPassed.length_eq
      -- A statement has a token, so one step less is enough for the statements after it.
      have hPositive : 0 < passed.length := by
        obtain ⟨_, _, _, rfl, -⟩ := Stmt.head_of_stmtIn hIn
        exact Nat.succ_pos _
      refine ⟨passed, hPassed, ?_⟩
      refine (ih (by omega) (hPassed.ends hEnds) (by omega) (by omega)).bind_pure ?_ _
      rintro tokens ⟨more, others, hMore, hOthers⟩
      exact .of_eq (.cons hIn hOthers) hMore (List.append_assoc _ _ _).symm

theorem readBody_settles {steps steps' : Nat} (hLe : steps ≤ steps') {c : Cursor} (hEnds : c.Ends)
    (hBound : c.rest.length < bound) (hSteps : c.rest.length < steps) :
    Settles (readBody stmt steps) (readBody stmt' steps') (Begins StmtsIn) c := by
  refine repeat_settles hSound hStmt ?_ hLe hEnds hBound hSteps
  intro steps steps' c hMore
  apply settles_kind
  split
  · exact settles_pure _
  · exact settles_failFor _ ⟨[], [], by decide, .nil⟩
  · exact hMore

theorem reader_settles {steps steps' : Nat} (hLe : steps ≤ steps') (hSteps : bound ≤ steps) :
    SettledReader (reader stmt steps) (reader stmt' steps') bound := by
  intro c hEnds hBound
  refine settles_expect hEnds (by decide) ?_ fun hOpen hEnds₁ hLength => ?_
  · exact ⟨_, _, braces_ne_eof, blockIn_braces⟩
  have hBody := readBody_settles hSound hStmt hLe hEnds₁ (by omega) (by omega)
  exact hBody.closed (readBody_sound hSound steps) hEnds₁ (by decide) [c.current]
    fun hIn hClose => .block hOpen hIn hClose

end Repeat

end Block

namespace Stmt

/-- The name and the sign with which an assignment begins. -/
def readTarget : Reader Token := do
  if (← nextKind) = .assign then
    let target ← next
    let _ ← next
    return target
  else
    failFor "expected a statement"

theorem readTarget_of_assign {c : Cursor} (hAssign : c.nextKind = .assign) :
    readTarget c = .ok c.current c.advance.advance := by
  rw [readTarget, bind_of_eq_ok (nextKind_eq_ok.mpr ⟨rfl, rfl⟩), if_pos hAssign]
  rfl

theorem readTarget_of_ne {c : Cursor} (hAssign : c.nextKind ≠ .assign) :
    readTarget c = .error (c.unexpectedFor "expected a statement") c := by
  rw [readTarget, bind_of_eq_ok (nextKind_eq_ok.mpr ⟨rfl, rfl⟩), if_neg hAssign]
  rfl

theorem readAssign_eq (expr : Power → Reader Expr) :
    readAssign expr = do
      let target ← readTarget
      let value ← expr .lowest
      let _ ← expect .semicolon
      return .assign ⟨⟨target.line, none⟩, target.value⟩ value ⟨target.line, none⟩ := by
  funext c
  rw [readAssign, bind_of_eq_ok (nextKind_eq_ok.mpr ⟨rfl, rfl⟩)]
  by_cases hAssign : c.nextKind = .assign
  · rw [if_pos hAssign, bind_of_eq_ok (readTarget_of_assign hAssign)]
    rfl
  · rw [if_neg hAssign, bind_of_eq_error (readTarget_of_ne hAssign)]
    rfl

section Target

variable {c : Cursor} (hEnds : c.Ends) (hKind : c.kind ≠ .eof)

include hEnds hKind

theorem passes_target (hAssign : c.nextKind = .assign) :
    c.Passes [c.current, c.advance.current] c.advance.advance := by
  have hFirst := Cursor.passes_advance hEnds hKind
  have hAssign' : c.advance.kind = .assign := hAssign
  exact hFirst.append (Cursor.passes_advance (hFirst.ends hEnds) (by rw [hAssign']; decide))

theorem readTarget_sound {c' : Cursor} {target : Token} (hRead : readTarget c = .ok target c') :
    ∃ equals, c.Passes [target, equals] c' ∧ target = c.current ∧ equals.kind = .assign := by
  by_cases hAssign : c.nextKind = .assign
  · rw [readTarget_of_assign hAssign] at hRead
    cases hRead
    exact ⟨_, passes_target hEnds hKind hAssign, rfl, hAssign⟩
  · rw [readTarget_of_ne hAssign] at hRead
    cases hRead

/-- A name is blamed if no assignment follows it: the one place where the token after the blamed one
matters. -/
theorem readTarget_settles : Settles readTarget readTarget (· = []) c := by
  by_cases hAssign : c.nextKind = .assign
  · rw [Settles, readTarget_of_assign hAssign]
    refine .ok (passes_target hEnds hKind hAssign) ?_
    intro d d' hPassed _
    obtain ⟨hFirst, -, hRest⟩ := hPassed.uncons
    obtain ⟨hSecond, -, hNone⟩ := hRest.uncons
    have hNext : d.nextKind = .assign := by
      rw [Cursor.nextKind, Cursor.kind, hSecond]
      exact hAssign
    rw [readTarget_of_assign hNext, hFirst, hNone.nil]
  · refine settles_stop (readTarget_of_ne hAssign) rfl rfl ?_
    intro d hHeralds
    have hNext : d.nextKind ≠ .assign := by rwa [hHeralds.nextKind_eq hEnds hKind]
    refine ⟨d, ?_⟩
    rw [readTarget_of_ne hNext, Cursor.unexpectedFor, hHeralds.current_eq]
    rfl

end Target

theorem typeNameIn_sample : TypeNameIn (sample .identifier) ⟨⟨0, none⟩, ""⟩ :=
  .name rfl

theorem returns_ne_eof : ∀ token ∈ [sample .arrow, sample .identifier, sample .openCurly,
    sample .closeCurly], token.kind ≠ .eof := by
  decide

/-- A beginning of the other block of a branch is, after the rest of the branch, one of the
branch. -/
theorem begins_branch {start : Token} {tokens others more : List Token} {condition : Expr}
    {thenBody : Block} (hStart : start.kind = .ifWord)
    (hCondition : ExprIn .logical tokens condition) (hThen : BlockIn others thenBody)
    (hElse : Begins (ElseIn start.line) more) :
    Begins BranchIn (start :: (tokens ++ (others ++ more))) := by
  obtain ⟨back, elseBody, hBack, hElseIn⟩ := hElse
  refine .of_eq (.branch hStart hCondition hThen hElseIn) hBack ?_
  rw [List.cons_append, List.append_assoc, List.append_assoc]

section Constructs

variable {expr expr' : Power → Reader Expr} {bound : Nat} (hSound : Expr.SoundReader expr)
  (hExpr : Expr.SettledReader expr expr' bound) {c : Cursor} (hEnds : c.Ends)

include hSound hExpr hEnds

/-- The expression at the end of a statement and its semicolon. -/
theorem value_settles (front : List Token) {g : Expr → Stmt} (hBound : c.rest.length < bound)
    (hFront : ∀ {tokens : List Token} {e : Expr} {semicolon : Token}, ExprIn .logical tokens e →
      semicolon.kind = .semicolon → StmtIn (front ++ (tokens ++ [semicolon])) (g e)) :
    Settles (do let value ← expr .lowest; let _ ← expect .semicolon; return g value)
      (do let value ← expr' .lowest; let _ ← expect .semicolon; return g value)
      (fun more => Begins StmtIn (front ++ more)) c :=
  (hExpr hEnds hBound).closed hSound.lowest hEnds (by decide) front hFront

variable (hBound : c.rest.length ≤ bound)

include hBound

theorem readVar_settles (hStart : c.kind = .varWord) :
    Settles (readVar expr) (readVar expr') (Begins StmtIn) c := by
  refine settles_next hEnds (by rw [hStart]; decide) fun hEnds₁ hLength₁ => ?_
  refine settles_expectFor hEnds₁ (by decide) ?_ (fun hName hEnds₂ hLength₂ => ?_) _
  · exact ⟨[sample .identifier, sample .colon, sample .identifier, sample .semicolon], _,
      by decide, .varDecl hStart rfl rfl (.name rfl) rfl⟩
  refine settles_expectFor hEnds₂ (by decide) ?_ (fun hColon hEnds₃ hLength₃ => ?_) _
  · exact ⟨[sample .colon, sample .identifier, sample .semicolon], _, by decide,
      .varDecl hStart hName rfl (.name rfl) rfl⟩
  refine (TypeName.reader_settles hEnds₃).bind ?_ ?_
  · rintro _ rfl
    exact ⟨[sample .identifier, sample .semicolon], _, by decide,
      .varDecl hStart hName hColon (.name rfl) rfl⟩
  intro typeName c₄ hRead
  obtain ⟨_, hType, type, rfl, hTypeIn⟩ := TypeName.reader_sound hEnds₃ hRead
  have hEnds₄ := hType.ends hEnds₃
  have hLength₄ := hType.length_eq
  refine ⟨_, hType, settles_ite (fun hAssign => ?_) fun _ => ?_⟩
  · refine settles_next hEnds₄ (by rw [hAssign]; decide) fun hEnds₅ hLength₅ => ?_
    exact value_settles hSound hExpr hEnds₅
      [c.current, c.advance.current, c.advance.advance.current, type, c₄.current] (by omega)
      fun hIn hLast => .varDeclTo hStart hName hColon hTypeIn hAssign hIn hLast
  · refine settles_expect_pure hEnds₄ (by decide) ?_ _
    exact ⟨[sample .semicolon], _, by decide, .varDecl hStart hName hColon hTypeIn rfl⟩

theorem readConst_settles (hStart : c.kind = .constWord) :
    Settles (readConst expr) (readConst expr') (Begins StmtIn) c := by
  obtain ⟨value, hValue⟩ := Expr.exists_exprIn_sample .logical
  refine settles_next hEnds (by rw [hStart]; decide) fun hEnds₁ hLength₁ => ?_
  refine settles_expectFor hEnds₁ (by decide) ?_ (fun hName hEnds₂ hLength₂ => ?_) _
  · exact ⟨[sample .identifier, sample .assign, sample .bool, sample .semicolon], _, by decide,
      .constDecl hStart rfl rfl hValue rfl⟩
  refine settles_expectFor hEnds₂ (by decide) ?_ (fun hAssign hEnds₃ hLength₃ => ?_) _
  · exact ⟨[sample .assign, sample .bool, sample .semicolon], _, by decide,
      .constDecl hStart hName rfl hValue rfl⟩
  exact value_settles hSound hExpr hEnds₃
    [c.current, c.advance.current, c.advance.advance.current] (by omega)
    fun hIn hLast => .constDecl hStart hName hAssign hIn hLast

theorem readValue_settles (make : Expr → UInt32 → Stmt) (hKind : c.kind ≠ .eof)
    (hMake : ∀ {tokens : List Token} {e : Expr} {semicolon : Token}, ExprIn .logical tokens e →
      semicolon.kind = .semicolon →
      StmtIn (c.current :: (tokens ++ [semicolon])) (make e c.current.line)) :
    Settles (readValue expr make) (readValue expr' make) (Begins StmtIn) c := by
  refine settles_next hEnds hKind fun hEnds₁ hLength₁ => ?_
  exact value_settles hSound hExpr hEnds₁ [c.current] (by omega) hMake

theorem readAssign_settles (hStart : c.kind = .identifier) :
    Settles (readAssign expr) (readAssign expr') (Begins StmtIn) c := by
  have hKind : c.kind ≠ .eof := by
    rw [hStart]
    decide
  rw [readAssign_eq, readAssign_eq]
  refine (readTarget_settles hEnds hKind).bind ?_ ?_
  · rintro _ rfl
    obtain ⟨value, hValue⟩ := Expr.exists_exprIn_sample .logical
    exact ⟨[sample .identifier, sample .assign, sample .bool, sample .semicolon], _, by decide,
      .assign rfl rfl hValue rfl⟩
  · intro target c₂ hRead
    obtain ⟨equals, hHead, rfl, hAssign⟩ := readTarget_sound hEnds hKind hRead
    have hLength := hHead.length_eq
    rw [List.length_cons, List.length_singleton] at hLength
    exact ⟨_, hHead, value_settles hSound hExpr (hHead.ends hEnds) [c.current, equals] (by omega)
      fun hIn hLast => .assign hStart hAssign hIn hLast⟩

variable {block block' : Reader Block} (hBlockSound : Sound block BlockIn)
  (hBlock : Block.SettledReader block block' bound)

include hBlock

theorem readLoop_settles (hStart : c.kind = .whileWord) :
    Settles (readLoop expr block) (readLoop expr' block') (Begins StmtIn) c := by
  refine settles_next hEnds (by rw [hStart]; decide) fun hEnds₁ hLength₁ => ?_
  refine (hExpr hEnds₁ (by omega)).bind ?_ ?_
  · intro tokens hBegins
    refine hBegins.within [c.current] Block.braces_ne_eof ?_
    intro part condition hIn
    have hLoop := StmtIn.loop hStart hIn Block.blockIn_braces
    exact ⟨_, hLoop⟩
  · intro condition c₂ hRead
    obtain ⟨tokens, hTokens, hIn⟩ := hSound.lowest hEnds₁ hRead
    have hLength₂ := hTokens.length_eq
    refine ⟨tokens, hTokens, (hBlock (hTokens.ends hEnds₁) (by omega)).bind_pure ?_ _⟩
    rintro others ⟨more, body, hMore, hBodyIn⟩
    refine .of_eq (.loop hStart hIn hBodyIn) hMore ?_
    rw [List.cons_append, List.append_assoc]

include hBlockSound

theorem readBranch_settles {steps steps' : Nat} (hLe : steps ≤ steps')
    (hSteps : c.rest.length ≤ steps) (hStart : c.kind = .ifWord) :
    Settles (readBranch expr block steps) (readBranch expr' block' steps') (Begins BranchIn) c := by
  induction steps generalizing steps' c with
  | zero =>
    have hLength := (hEnds.advance (by rw [hStart]; decide)).2
    omega
  | succ steps ih =>
    obtain ⟨steps', rfl⟩ : ∃ n, steps' = n + 1 := ⟨steps' - 1, by omega⟩
    refine settles_next hEnds (by rw [hStart]; decide) fun hEnds₁ hLength₁ => ?_
    refine (hExpr hEnds₁ (by omega)).bind ?_ ?_
    · intro tokens hBegins
      refine hBegins.within [c.current] Block.braces_ne_eof ?_
      intro part condition hIn
      have hBranch := BranchIn.branch hStart hIn Block.blockIn_braces .missing
      exact ⟨_, hBranch⟩
    intro condition c₂ hRead
    obtain ⟨tokens, hTokens, hIn⟩ := hSound.lowest hEnds₁ hRead
    have hEnds₂ := hTokens.ends hEnds₁
    have hLength₂ := hTokens.length_eq
    refine ⟨tokens, hTokens, (hBlock hEnds₂ (by omega)).bind ?_ ?_⟩
    · intro others hBegins
      exact hBegins.within (c.current :: tokens) (List.forall_mem_nil _) fun hThen =>
        ⟨_, BranchIn.branch hStart hIn hThen .missing⟩
    intro thenBody c₃ hRead
    obtain ⟨others, hOthers, hThen⟩ := hBlockSound hEnds₂ hRead
    have hEnds₃ := hOthers.ends hEnds₂
    have hLength₃ := hOthers.length_eq
    refine ⟨others, hOthers, settles_ite (fun hElse => ?_) fun _ => settles_pure _⟩
    refine settles_next hEnds₃ (by rw [hElse]; decide) fun hEnds₄ hLength₄ => ?_
    refine settles_ite (fun hIf => ?_) fun _ => ?_
    · refine (ih hEnds₄ (by omega) (by omega) (by omega) hIf).bind_pure ?_ _
      rintro more ⟨back, inner, hBack, hInner⟩
      exact begins_branch hStart hIn hThen ⟨back, _, hBack, .branch hElse hInner⟩
    · refine (hBlock hEnds₄ (by omega)).bind_pure ?_ _
      rintro more ⟨back, elseBody, hBack, hElseIn⟩
      exact begins_branch hStart hIn hThen ⟨back, _, hBack, .block hElse hElseIn⟩

omit hSound hExpr hBlockSound in
/-- The arrow, the type and the body at the end of the declaration of a function. -/
theorem returns_settles (front : List Token) {g : TypeName → Block → Stmt} (message : String)
    (hFront : ∀ {arrow type : Token} {others : List Token} {typeName : TypeName} {body : Block},
      arrow.kind = .arrow → TypeNameIn type typeName → BlockIn others body →
      StmtIn (front ++ arrow :: type :: others) (g typeName body)) :
    Settles
      (do let _ ← expectFor .arrow message; let returns ← TypeName.reader; let body ← block
          return g returns body)
      (do let _ ← expectFor .arrow message; let returns ← TypeName.reader; let body ← block'
          return g returns body)
      (fun more => Begins StmtIn (front ++ more)) c := by
  refine settles_expectFor hEnds (by decide) ?_ (fun hArrow hEnds₁ hLength₁ => ?_) _
  · have hSample : (sample .arrow).kind = .arrow := rfl
    refine .of_eq (hFront hSample typeNameIn_sample Block.blockIn_braces) returns_ne_eof ?_
    rw [List.append_nil]
  refine (TypeName.reader_settles hEnds₁).bind ?_ ?_
  · rintro _ rfl
    refine .of_eq (hFront hArrow typeNameIn_sample Block.blockIn_braces)
      (List.forall_mem_cons.mp returns_ne_eof).2 ?_
    rw [List.append_assoc, List.singleton_append]
  intro typeName c₂ hRead
  obtain ⟨_, hType, type, rfl, hTypeIn⟩ := TypeName.reader_sound hEnds₁ hRead
  have hLength₂ := hType.length_eq
  refine ⟨_, hType, (hBlock (hType.ends hEnds₁) (by omega)).bind_pure ?_ _⟩
  rintro others ⟨more, body, hMore, hBody⟩
  refine .of_eq (hFront hArrow hTypeIn hBody) hMore ?_
  simp only [List.append_assoc, List.cons_append, List.nil_append]

omit hSound hExpr hBlockSound in
theorem readFn_settles {steps steps' : Nat} (hLe : steps ≤ steps')
    (hSteps : c.rest.length ≤ steps) (hStart : c.kind = .fnWord) :
    Settles (readFn block steps) (readFn block' steps') (Begins StmtIn) c := by
  have hArrow : (sample .arrow).kind = .arrow := rfl
  refine settles_next hEnds (by rw [hStart]; decide) fun hEnds₁ hLength₁ => ?_
  refine settles_expectFor hEnds₁ (by decide) ?_ (fun hName hEnds₂ hLength₂ => ?_) _
  · have hNone : Parenthesised ParameterIn [sample .openParen, sample .closeParen] [] :=
      .none rfl rfl
    have hName : (sample .identifier).kind = .identifier := rfl
    exact .of_eq (.fnDecl hStart hName hNone hArrow typeNameIn_sample Block.blockIn_braces)
      (by decide) rfl
  have hSteps₂ : c.advance.advance.rest.length ≤ steps := by omega
  refine (parenthesised_settles Parameter.reader_sound
    (fun hEnds _ => Parameter.reader_settles hEnds) hLe hEnds₂ hSteps₂ hSteps₂).bind ?_ ?_
  · rintro tokens ⟨more, parameters, hMore, hIn⟩
    refine .of_eq (.fnDecl hStart hName hIn hArrow typeNameIn_sample Block.blockIn_braces)
      (List.forall_mem_append.mpr ⟨hMore, returns_ne_eof⟩) ?_
    simp only [List.cons_append, List.append_assoc]
  · intro parameters c₃ hRead
    obtain ⟨tokens, hTokens, hIn⟩ := parenthesised_sound Parameter.reader_sound steps hEnds₂ hRead
    have hLength₃ := hTokens.length_eq
    refine ⟨tokens, hTokens, ?_⟩
    exact returns_settles (hTokens.ends hEnds₂) (by omega) hBlock
      (c.current :: c.advance.current :: tokens) _
      fun hArrow hType hBody => .fnDecl hStart hName hIn hArrow hType hBody

end Constructs

theorem readForm_settles {expr expr' : Power → Reader Expr} {stmt stmt' : Reader Stmt}
    {steps steps' : Nat} (hLe : steps ≤ steps') (hSound : Expr.SoundReader expr)
    (hExpr : Expr.SettledReader expr expr' steps) (hStmtSound : Sound stmt StmtIn)
    (hStmt : SettledReader stmt stmt' steps) {form : StmtForm} {c : Cursor} (hEnds : c.Ends)
    (hBound : c.rest.length ≤ steps) (hStart : form.start? = some c.kind) :
    Settles (readForm expr stmt steps form) (readForm expr' stmt' steps' form) (Begins StmtIn)
      c := by
  have hBlockSound : Sound (Block.reader stmt steps) BlockIn := Block.reader_sound hStmtSound steps
  have hBlock : Block.SettledReader (Block.reader stmt steps) (Block.reader stmt' steps') steps :=
    Block.reader_settles hStmtSound hStmt hLe (Nat.le_refl _)
  cases form with
  | any => cases hStart
  | varDecl => exact readVar_settles hSound hExpr hEnds hBound (Option.some.inj hStart).symm
  | constDecl => exact readConst_settles hSound hExpr hEnds hBound (Option.some.inj hStart).symm
  | echo =>
    have hEcho : c.kind = .echoWord := (Option.some.inj hStart).symm
    exact readValue_settles hSound hExpr hEnds hBound .echo (by rw [hEcho]; decide) (.echo hEcho)
  | branch =>
    have hBranch := readBranch_settles hSound hExpr hEnds hBound hBlockSound hBlock hLe hBound
      (Option.some.inj hStart).symm
    refine hBranch.imp ?_
    rintro tokens ⟨more, s, hMore, hIn⟩
    exact ⟨more, s, hMore, .branch hIn⟩
  | loop => exact readLoop_settles hSound hExpr hEnds hBound hBlock (Option.some.inj hStart).symm
  | fnDecl => exact readFn_settles hEnds hBound hBlock hLe hBound (Option.some.inj hStart).symm
  | ret =>
    have hReturn : c.kind = .returnWord := (Option.some.inj hStart).symm
    exact readValue_settles hSound hExpr hEnds hBound (fun value line => .ret value ⟨line, none⟩)
      (by rw [hReturn]; decide) (.ret hReturn)
  | assign => exact readAssign_settles hSound hExpr hEnds hBound (Option.some.inj hStart).symm

/-- A reader of statements settles if it has more steps than there are tokens before it. -/
theorem reader_settles {steps steps' : Nat} (hLe : steps ≤ steps') :
    SettledReader (reader .standard steps) (reader .standard steps') steps := by
  induction steps generalizing steps' with
  | zero => exact fun _ hBound => absurd hBound (Nat.not_lt_zero _)
  | succ steps ih =>
    intro c hEnds hBound
    obtain ⟨steps', rfl⟩ : ∃ n, steps' = n + 1 := ⟨steps' - 1, by omega⟩
    have hLe' : steps ≤ steps' := by omega
    apply settles_kind
    cases hForm : Tables.standard.stmt? c.kind with
    | none =>
      refine settles_failFor _ ?_
      exact ⟨[sample .varWord, sample .identifier, sample .colon, sample .identifier,
        sample .semicolon], _, by decide, .varDecl rfl rfl rfl (.name rfl) rfl⟩
    | some form =>
      exact readForm_settles hLe' (Expr.reader_sound steps) (Expr.reader_settles hLe')
        (reader_sound steps) (ih hLe') hEnds (by omega) (Tables.standard_stmt?_eq_some.mp hForm)

end Stmt

end Jingle.Syntax

/-! ## Programs -/

namespace Jingle.Grammar.Cursor

theorem passes_of_prefix {passed other : List Token} {stop : Cursor}
    (hPassed : ∀ token ∈ passed, token.kind ≠ .eof)
    (hPrefix : passed ++ stop.tokens.take 2 <+: other) :
    ∃ stop', (ofTokens other).Passes passed stop' ∧ stop.Heralds stop' := by
  obtain ⟨more, rfl⟩ := hPrefix
  obtain ⟨back, hTokens⟩ := isPrefix_ofTokens (passed ++ stop.tokens.take 2 ++ more)
  refine ⟨⟨stop.current, stop.rest.take 1 ++ (more ++ back)⟩, ⟨?_, hPassed⟩, more ++ back, rfl⟩
  rw [← hTokens]
  simp only [tokens, List.take_succ_cons, List.append_assoc, List.cons_append]

theorem Passes.getElem?_length {c stop : Cursor} {passed : List Token} (h : c.Passes passed stop) :
    c.tokens[passed.length]? = some stop.current := by
  rw [h.1, List.getElem?_append_right (Nat.le_refl _), Nat.sub_self]
  rfl

end Jingle.Grammar.Cursor

namespace Jingle.Syntax.Block

open Grammar Grammar.Reader

theorem readAll_settles {steps steps' : Nat} (hLe : steps ≤ steps') {c : Cursor} (hEnds : c.Ends)
    (hSteps : c.rest.length < steps) :
    Settles (readAll (Stmt.reader .standard steps) steps)
      (readAll (Stmt.reader .standard steps') steps') (Begins StmtsIn) c := by
  refine repeat_settles (Stmt.reader_sound steps) (Stmt.reader_settles hLe) ?_ hLe hEnds hSteps
    hSteps
  intro steps steps' c hMore
  exact settles_ite (fun _ => settles_pure _) fun _ => hMore

section Faults

variable {tokens : List Token} {fault : Fault} {steps : Nat}
  (hSteps : (Cursor.ofTokens tokens).budget ≤ steps)

include hSteps

/-- Whatever number of steps there is for the second run, the first one has passed a beginning of a
program. -/
theorem begins_of_ofTokens_eq_error (hRead : Block.ofTokens tokens = .error fault) :
    ∃ passed stop, (Cursor.ofTokens tokens).Passes passed stop ∧
      fault.offset = stop.current.start ∧ Begins StmtsIn passed ∧
      ∀ {d stop' : Cursor}, d.Passes passed stop' → stop.Heralds stop' →
        ∃ d', readAll (Stmt.reader .standard steps) steps d = .error fault d' := by
  have hSettles := readAll_settles hSteps (Cursor.ends_ofTokens tokens)
    (Nat.lt_add_of_pos_right (by decide))
  unfold Settles at hSettles
  simp only [Block.ofTokens] at hRead
  split at hRead
  · cases hRead
  · next fault' c' hError =>
    obtain rfl := Except.error.inj hRead
    rw [hError] at hSettles
    cases hSettles with
    | error hPassed hOffset hBegins hSame => exact ⟨_, _, hPassed, hOffset, hBegins, hSame⟩

theorem ofTokens_of_readAll_eq_error {c' : Cursor}
    (hRead : readAll (Stmt.reader .standard steps) steps (Cursor.ofTokens tokens) =
      .error fault c') : Block.ofTokens tokens = .error fault := by
  have hSettles := readAll_settles hSteps (Cursor.ends_ofTokens tokens)
    (Nat.lt_add_of_pos_right (by decide))
  obtain ⟨c'', hError⟩ := hSettles.eq_error hRead
  simp only [Block.ofTokens, hError]

end Faults

/-- A beginning of a program is a beginning of a list of tokens that is read. -/
theorem exists_ofTokens_of_begins {tokens : List Token} (hBegins : Begins StmtsIn tokens)
    (hTokens : ∀ token ∈ tokens, token.kind ≠ .eof) :
    ∃ more block, Block.ofTokens (tokens ++ more) = .ok block := by
  obtain ⟨more, body, hMore, hIn⟩ := hBegins
  have hEof : (sample .eof).kind = .eof := rfl
  refine ⟨more ++ [sample .eof], ⟨1, body⟩, ?_⟩
  rw [← List.append_assoc]
  have hPassed : (Cursor.ofTokens (tokens ++ more ++ [sample .eof])).Passes (tokens ++ more)
      ⟨sample .eof, []⟩ :=
    ⟨Cursor.tokens_ofTokens hEof, List.forall_mem_append.mpr ⟨hTokens, hMore⟩⟩
  exact ofTokens_complete hPassed hEof (.program hIn)

/-- A list of tokens with an end at its end and with distinct starts that is refused is refused at
the start of one of its tokens. The tokens before that one can be continued to a list that is read,
and every list that begins with them, with that token and with the next one, if there is one, is
refused for the same fault. -/
theorem ofTokens_fault_first {tokens : List Token} {last : Token} {fault : Fault}
    (hLast : last.kind = .eof) (hStarts : ((tokens ++ [last]).map (·.start)).Nodup)
    (hRead : Block.ofTokens (tokens ++ [last]) = .error fault) :
    (∃ (i : Nat) (token : Token),
        (tokens ++ [last])[i]? = some token ∧ fault.offset = token.start) ∧
      ∀ (i : Nat) (token : Token),
        (tokens ++ [last])[i]? = some token → fault.offset = token.start →
          (∃ more block, Block.ofTokens ((tokens ++ [last]).take i ++ more) = .ok block) ∧
            ∀ other, (tokens ++ [last]).take (i + 2) <+: other →
              Block.ofTokens other = .error fault := by
  have hTokens : (Cursor.ofTokens (tokens ++ [last])).tokens = tokens ++ [last] :=
    Cursor.tokens_ofTokens hLast
  generalize tokens ++ [last] = all at *
  -- The starts are distinct, so every run that stops for this fault has passed the same tokens.
  have hIndex {i : Nat} {token : Token} {passed : List Token} {stop : Cursor}
      (hToken : all[i]? = some token) (hStart : stop.current.start = token.start)
      (hPassed : (Cursor.ofTokens all).Passes passed stop) :
      i = passed.length ∧ all = passed ++ stop.tokens := by
    have hStop := hPassed.getElem?_length
    rw [hTokens] at hStop
    refine ⟨(List.getElem?_inj ?_ hStarts).mp ?_, hTokens.symm.trans hPassed.1⟩
    · rw [List.length_map]
      exact (List.getElem?_eq_some_iff.mp hToken).1
    · rw [List.getElem?_map, List.getElem?_map, hToken, hStop, Option.map_some, Option.map_some,
        hStart]
  obtain ⟨passed, stop, hPassed, hStop, hBegins, -⟩ :=
    begins_of_ofTokens_eq_error (Nat.le_refl _) hRead
  constructor
  · refine ⟨passed.length, stop.current, ?_, hStop⟩
    rw [← hPassed.getElem?_length, hTokens]
  · intro i token hToken hOffset
    constructor
    · obtain ⟨rfl, hAll⟩ := hIndex hToken (hStop.symm.trans hOffset) hPassed
      rw [hAll, List.take_left]
      exact exists_ofTokens_of_begins hBegins hPassed.2
    · intro other hPrefix
      -- The two lists have budgets of their own, so both are read with the larger one.
      obtain ⟨passed, stop, hPassed, hStop, -, hSame⟩ :=
        begins_of_ofTokens_eq_error (Nat.le_max_left _ (Cursor.ofTokens other).budget) hRead
      obtain ⟨rfl, hAll⟩ := hIndex hToken (hStop.symm.trans hOffset) hPassed
      rw [hAll, List.take_length_add_append] at hPrefix
      obtain ⟨stop', hPassed', hHeralds⟩ := Cursor.passes_of_prefix hPassed.2 hPrefix
      obtain ⟨d', hError⟩ := hSame hPassed' hHeralds
      exact ofTokens_of_readAll_eq_error (Nat.le_max_right _ _) hError

/-- In `x = a; y z;` the name `y` is blamed, because no assignment follows it. -/
theorem ofTokens_fault_first_name :
    let token (kind : Token.Kind) (value : String) (start : UInt32) : Token :=
      ⟨kind, value, start, 1, 1⟩
    let all := [token .identifier "x" 0, token .assign "=" 2, token .identifier "a" 4,
      token .semicolon ";" 5, token .identifier "y" 7, token .identifier "z" 9,
      token .semicolon ";" 10] ++ [Token.endAt 11 1]
    let fault : Fault := ⟨.unexpectedFor "y" "expected a statement", 7⟩
    (∃ more block, Block.ofTokens (all.take 4 ++ more) = .ok block) ∧
      ∀ other, all.take 6 <+: other → Block.ofTokens other = .error fault :=
  (ofTokens_fault_first rfl (by decide) rfl).2 4 _ rfl rfl

end Jingle.Syntax.Block

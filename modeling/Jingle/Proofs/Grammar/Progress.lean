import Jingle.Proofs.Grammar.Program
import Jingle.Proofs.Grammar.Settled

/-!
# Steps that suffice

A reader of the language that has more steps than there are tokens before it never uses them up, and
more steps change nothing. Wherever it stops, it has not moved back, and a construct that it has
read has at least one token.

* `Suffices r r' least c` says that a reader `r` has enough steps at a cursor and that `r'` does the
  same there.
* `Expr.reader_suffices` and `Stmt.reader_suffices` say it of the readers of the language.
* `Block.ofTokens_terminates` says it of whole lists of tokens.
-/

namespace Jingle.Grammar

open Reader
open Token (Kind)

/-! ## Readers with enough steps -/

section Suffices

variable {α β : Type} {least : Nat} {c : Cursor}

/-- A reader has not used up its steps: it has passed at least so many tokens, or there is another
fault and the cursor has not moved back. -/
inductive Arrives (least : Nat) (c : Cursor) : EStateM.Result Fault Cursor α → Prop where
  | ok {a : α} {passed : List Token} {c' : Cursor} : c.Passes passed c' → least ≤ passed.length →
      Arrives least c (.ok a c')
  | error {fault : Fault} {c' : Cursor} : fault.cause ≠ .tooDeep → c.Leads c' →
      Arrives least c (.error fault c')

/-- The reader `r` has enough steps at the cursor, and `r'` does the same there. -/
structure Suffices (r r' : Reader α) (least : Nat) (c : Cursor) : Prop where
  same : r' c = r c
  arrives : Arrives least c (r c)

/-- What is read later is also after the tokens that have been passed before. -/
theorem Arrives.after {c' : Cursor} {passed : List Token} {result : EStateM.Result Fault Cursor α}
    (h : Arrives 0 c' result) (hPassed : c.Passes passed c') (hLeast : least ≤ passed.length) :
    Arrives least c result := by
  cases h with
  | ok hMore _ =>
    refine .ok (hPassed.append hMore) ?_
    rw [List.length_append]
    omega
  | error hCause hLeads => exact .error hCause (hPassed.leads.trans hLeads)

theorem Suffices.weaken {r r' : Reader α} (h : Suffices r r' least c) : Suffices r r' 0 c := by
  obtain ⟨hSame, hArrives⟩ := h
  refine ⟨hSame, ?_⟩
  generalize r c = result at hArrives ⊢
  cases hArrives with
  | ok hPassed _ => exact .ok hPassed (Nat.zero_le _)
  | error hCause hLeads => exact .error hCause hLeads

theorem suffices_pure (a : α) : Suffices (pure a) (pure a) 0 c :=
  ⟨rfl, .ok (.refl c) (Nat.zero_le _)⟩

theorem suffices_throw {fault : Fault} (hCause : fault.cause ≠ .tooDeep) :
    Suffices (throw fault : Reader α) (throw fault) least c :=
  ⟨rfl, .error hCause (.refl c)⟩

theorem suffices_failFor (message : String) :
    Suffices (failFor message : Reader α) (failFor message) least c :=
  ⟨rfl, .error nofun (.refl c)⟩

/-- What is read first has enough steps, and what is read after it has enough steps where the first
reader leaves the cursor. -/
theorem Suffices.bind {r r' : Reader α} {f f' : α → Reader β} (h : Suffices r r' least c)
    (hEnds : c.Ends)
    (hRest : ∀ {a : α} {c' : Cursor}, c'.Ends → c'.rest.length + least ≤ c.rest.length →
      Suffices (f a) (f' a) 0 c') :
    Suffices (r >>= f) (r' >>= f') least c := by
  obtain ⟨hSame, hArrives⟩ := h
  cases hRead : r c with
  | error fault c' =>
    rw [hRead] at hSame hArrives
    refine ⟨(bind_of_eq_error hSame).trans (bind_of_eq_error hRead).symm, ?_⟩
    rw [bind_of_eq_error hRead]
    cases hArrives with
    | error hCause hLeads => exact .error hCause hLeads
  | ok a c' =>
    rw [hRead] at hSame hArrives
    cases hArrives with
    | ok hPassed hLeast =>
      -- The tokens of the first reader are enough for both, so the second one may pass none.
      have hLength := hPassed.length_eq
      have hNext : Suffices (f a) (f' a) 0 c' := hRest (hPassed.ends hEnds) (by omega)
      refine ⟨?_, ?_⟩
      · rw [bind_of_eq_ok hSame, bind_of_eq_ok hRead, hNext.same]
      · rw [bind_of_eq_ok hRead]
        exact hNext.arrives.after hPassed hLeast

/-- A reader whose result is only made into something else. -/
theorem Suffices.bind_pure {r r' : Reader α} (h : Suffices r r' least c) (hEnds : c.Ends)
    (g : α → β) :
    Suffices (do let a ← r; pure (g a)) (do let a ← r'; pure (g a)) least c :=
  h.bind hEnds fun _ _ => suffices_pure _

theorem suffices_kind {f f' : Kind → Reader α} (h : Suffices (f c.kind) (f' c.kind) least c) :
    Suffices (kind >>= f) (kind >>= f') least c :=
  ⟨h.same, h.arrives⟩

theorem suffices_nextKind {f f' : Kind → Reader α}
    (h : Suffices (f c.nextKind) (f' c.nextKind) least c) :
    Suffices (nextKind >>= f) (nextKind >>= f') least c :=
  ⟨h.same, h.arrives⟩

/-- A look at the kind of the token under the cursor decides what is read. -/
theorem suffices_ite {k : Kind} {r r' s s' : Reader α}
    (hThen : c.kind = k → Suffices r r' least c) (hElse : c.kind ≠ k → Suffices s s' least c) :
    Suffices (do if (← kind) = k then r else s) (do if (← kind) = k then r' else s') least c := by
  apply suffices_kind
  by_cases hKind : c.kind = k
  · rw [if_pos hKind, if_pos hKind]
    exact hThen hKind
  · rw [if_neg hKind, if_neg hKind]
    exact hElse hKind

section Step

variable {f f' : Token → Reader α} (hEnds : c.Ends)

include hEnds

theorem suffices_next (hKind : c.kind ≠ .eof)
    (h : c.advance.Ends → c.rest.length = c.advance.rest.length + 1 →
      Suffices (f c.current) (f' c.current) 0 c.advance) :
    Suffices (next >>= f) (next >>= f') 1 c := by
  obtain ⟨hEnds', hLength⟩ := hEnds.advance hKind
  have hNext := h hEnds' hLength
  exact ⟨hNext.same, hNext.arrives.after (Cursor.passes_advance hEnds hKind) (Nat.le_refl 1)⟩

variable {k : Kind} (hEof : k ≠ .eof)
  (h : c.advance.Ends → c.rest.length = c.advance.rest.length + 1 →
    Suffices (f c.current) (f' c.current) 0 c.advance)

include hEof h

theorem suffices_expectOr {fault : Cursor → Fault} (hCause : (fault c).cause ≠ .tooDeep) :
    Suffices (expectOr k fault >>= f) (expectOr k fault >>= f') 1 c := by
  by_cases hKind : c.kind = k
  · have hRead : expectOr k fault c = .ok c.current c.advance := if_pos hKind
    have hNext := suffices_next hEnds (by rwa [hKind]) h
    refine ⟨?_, ?_⟩
    · rw [bind_of_eq_ok hRead, bind_of_eq_ok hRead]
      exact hNext.same
    · rw [bind_of_eq_ok hRead]
      exact hNext.arrives
  · have hRead : expectOr k fault c = .error (fault c) c := if_neg hKind
    refine ⟨?_, ?_⟩
    · rw [bind_of_eq_error hRead, bind_of_eq_error hRead]
    · rw [bind_of_eq_error hRead]
      exact .error hCause (.refl c)

theorem suffices_expect : Suffices (expect k >>= f) (expect k >>= f') 1 c :=
  suffices_expectOr hEnds hEof h nofun

theorem suffices_expectFor (message : String) :
    Suffices (expectFor k message >>= f) (expectFor k message >>= f') 1 c :=
  suffices_expectOr hEnds hEof h nofun

end Step

/-- A last token of a kind. -/
theorem suffices_expect_pure {k : Kind} (hEnds : c.Ends) (hEof : k ≠ .eof) (a : α) :
    Suffices (do let _ ← expect k; pure a) (do let _ ← expect k; pure a) 1 c :=
  suffices_expect hEnds hEof fun _ _ => suffices_pure a

/-- A part and a last token of a kind. -/
theorem Suffices.closed {r r' : Reader α} {k : Kind} (h : Suffices r r' least c) (hEnds : c.Ends)
    (hEof : k ≠ .eof) (g : α → β) :
    Suffices (do let a ← r; let _ ← expect k; pure (g a))
      (do let a ← r'; let _ ← expect k; pure (g a)) least c :=
  h.bind hEnds fun hEnds' _ => (suffices_expect_pure hEnds' hEof _).weaken

/-- A reader of constructs that have tokens has enough steps if fewer tokens than the bound are
left. -/
def SufficesBelow (r r' : Reader α) (bound : Nat) : Prop :=
  ∀ {c : Cursor}, c.Ends → c.rest.length < bound → Suffices r r' 1 c

/-- The budget of the cursor is enough for a reader, and any more steps than there are tokens left
do the same. The cursor does not move back, and where the reader succeeds it moves ahead by at least
so many tokens. -/
structure Terminates (r : Nat → Reader α) (least : Nat) (c : Cursor) : Prop where
  same : ∀ steps, c.rest.length < steps → r steps c = r c.budget c
  ok : ∀ a c', r c.budget c = .ok a c' → c.Leads c' ∧ c'.rest.length + least ≤ c.rest.length
  error : ∀ fault c', r c.budget c = .error fault c' → fault.cause ≠ .tooDeep ∧ c.Leads c'

theorem terminates_of_suffices {r : Nat → Reader α}
    (h : ∀ {steps steps' : Nat}, steps ≤ steps' → c.rest.length < steps →
      Suffices (r steps) (r steps') least c) : Terminates r least c := by
  have hLess : c.rest.length < c.rest.length + 1 := Nat.lt_succ_self _
  have hBudget : c.rest.length + 1 ≤ c.budget := Nat.add_le_add_left (by decide) _
  have hArrives := (h (Nat.le_refl _) hBudget).arrives
  refine ⟨?_, ?_, ?_⟩
  · intro steps hSteps
    -- Both numbers are compared with the least one that is enough.
    rw [(h hSteps hLess).same, (h hBudget hLess).same]
  · intro a c' hRead
    rw [hRead] at hArrives
    cases hArrives with
    | ok hPassed hLeast =>
      have hLength := hPassed.length_eq
      exact ⟨hPassed.leads, by omega⟩
  · intro fault c' hRead
    rw [hRead] at hArrives
    cases hArrives with
    | error hCause hLeads => exact ⟨hCause, hLeads⟩

end Suffices

namespace Reader

variable {α : Type} {item item' : Reader α} {bound steps steps' : Nat}
  (hItem : SufficesBelow item item' bound) (hLe : steps ≤ steps')

include hItem hLe

theorem commaSeparated_suffices {c : Cursor} (hEnds : c.Ends) (hBound : c.rest.length < bound)
    (hSteps : c.rest.length < steps) :
    Suffices (commaSeparated item steps) (commaSeparated item' steps') 1 c := by
  induction steps generalizing steps' c with
  | zero => omega
  | succ steps ih =>
    obtain ⟨steps', rfl⟩ : ∃ n, steps' = n + 1 := ⟨steps' - 1, by omega⟩
    refine (hItem hEnds hBound).bind hEnds fun hEnds₁ hLength₁ => ?_
    refine suffices_ite (fun hComma => ?_) fun _ => suffices_pure _
    refine (suffices_next hEnds₁ (by rw [hComma]; decide) fun hEnds₂ hLength₂ => ?_).weaken
    exact ((ih (by omega) hEnds₂ (by omega) (by omega)).bind_pure hEnds₂ _).weaken

theorem parenthesised_suffices {c : Cursor} (hEnds : c.Ends) (hBound : c.rest.length ≤ bound)
    (hSteps : c.rest.length ≤ steps) :
    Suffices (parenthesised item steps) (parenthesised item' steps') 1 c := by
  refine suffices_expect hEnds (by decide) fun hEnds₁ hLength => ?_
  refine suffices_ite (fun _ => ?_) fun _ => ?_
  · exact (suffices_expect_pure hEnds₁ (by decide) []).weaken
  · have hItems := commaSeparated_suffices hItem hLe hEnds₁ (by omega) (by omega)
    exact (hItems.closed hEnds₁ (by decide) id).weaken

end Reader

end Jingle.Grammar

namespace Jingle.Syntax

open Grammar Grammar.Reader

/-! ## Expressions -/

theorem Literal.cause_of_ofToken {token : Token} {cause : Fault.Cause}
    (h : Literal.ofToken token = .error cause) : cause ≠ .tooDeep := by
  rintro rfl
  unfold Literal.ofToken at h
  split at h
  · split at h <;> cases h
  · split at h <;> cases h
  · split at h <;> cases h
  · cases h
  · cases h
  · cases h

namespace Expr

section Constructs

variable {expr expr' : Power → Reader Expr} {bound steps steps' : Nat}
  (hExpr : ∀ power, SufficesBelow (expr power) (expr' power) bound)
  {c : Cursor} (hEnds : c.Ends) (hBound : c.rest.length ≤ bound)

include hExpr hEnds hBound

theorem readPrefixed_suffices (hKind : c.kind ≠ .eof) :
    Suffices (readPrefixed expr) (readPrefixed expr') 1 c := by
  refine suffices_next hEnds hKind fun hEnds₁ hLength => ?_
  cases hOp : UnaryOp.ofKind? c.current.kind with
  | some op => exact ((hExpr _ hEnds₁ (by omega)).bind_pure hEnds₁ _).weaken
  | none => exact suffices_throw nofun

theorem readBinary_suffices (hKind : c.kind ≠ .eof) (power : Power) (left : Expr) :
    Suffices (readBinary expr power left) (readBinary expr' power left) 1 c := by
  refine suffices_next hEnds hKind fun hEnds₁ hLength => ?_
  cases hOp : BinaryOp.ofKind? c.current.kind with
  | some op => exact ((hExpr _ hEnds₁ (by omega)).bind_pure hEnds₁ _).weaken
  | none => exact suffices_throw nofun

theorem readGrouped_suffices (hKind : c.kind ≠ .eof) :
    Suffices (readGrouped expr) (readGrouped expr') 1 c := by
  refine suffices_next hEnds hKind fun hEnds₁ hLength => ?_
  exact ((hExpr _ hEnds₁ (by omega)).closed hEnds₁ (by decide) id).weaken

theorem readPrimary_suffices (hLe : steps ≤ steps') (hSteps : c.rest.length ≤ steps)
    (hKind : c.kind ≠ .eof) :
    Suffices (readPrimary expr steps) (readPrimary expr' steps') 1 c := by
  refine suffices_next hEnds hKind fun hEnds₁ hLength => ?_
  by_cases hName : c.current.kind = .identifier
  · simp only [if_pos hName]
    refine suffices_ite (fun _ => ?_) fun _ => suffices_pure _
    have hArguments :=
      parenthesised_suffices (hExpr .lowest) hLe hEnds₁ (by omega) (by omega)
    exact (hArguments.bind_pure hEnds₁ _).weaken
  · simp only [if_neg hName]
    cases hValue : Literal.ofToken c.current with
    | ok value => exact suffices_pure _
    | error cause => exact suffices_throw (Literal.cause_of_ofToken hValue)

theorem readOperand_suffices (hLe : steps ≤ steps') (hSteps : c.rest.length ≤ steps) :
    Suffices (readOperand expr steps .standard) (readOperand expr' steps' .standard) 1 c := by
  apply suffices_kind
  cases hForm : Tables.standard.operand? c.kind with
  | none => exact suffices_failFor _
  | some form =>
    have hKind := Tables.standard_operand?_ne_eof hForm
    cases form with
    | primary => exact readPrimary_suffices hExpr hEnds hBound hLe hSteps hKind
    | prefixed => exact readPrefixed_suffices hExpr hEnds hBound hKind
    | grouped => exact readGrouped_suffices hExpr hEnds hBound hKind

/-- The loop over the operators after an operand. No operator is an end, so each has a token. -/
theorem readOperators_suffices (hLe : steps ≤ steps') (hSteps : c.rest.length < steps)
    (power : Power) (left : Expr) :
    Suffices (readOperators .standard expr power steps left)
      (readOperators .standard expr' power steps' left) 0 c := by
  induction steps generalizing steps' left c with
  | zero => omega
  | succ steps ih =>
    obtain ⟨steps', rfl⟩ : ∃ n, steps' = n + 1 := ⟨steps' - 1, by omega⟩
    apply suffices_kind
    dsimp only
    by_cases hStop : Tables.standard.power c.kind ≤ power
    · rw [if_pos hStop, if_pos hStop]
      exact suffices_pure _
    · rw [if_neg hStop, if_neg hStop]
      have hKind : c.kind ≠ .eof := by
        intro hEof
        rw [hEof] at hStop
        exact hStop (Nat.zero_le _)
      refine ((readBinary_suffices hExpr hEnds hBound hKind _ left).bind hEnds ?_).weaken
      intro extended c₁ hEnds₁ hLength
      exact ih hEnds₁ (by omega) (by omega) (by omega) extended

end Constructs

/-- A reader of expressions has enough steps if it has more of them than there are tokens left. -/
theorem reader_suffices {steps steps' : Nat} (hLe : steps ≤ steps') (power : Power) :
    SufficesBelow (reader .standard steps power) (reader .standard steps' power) steps := by
  induction steps generalizing steps' power with
  | zero => exact fun _ hBound => absurd hBound (Nat.not_lt_zero _)
  | succ steps ih =>
    intro c hEnds hBound
    obtain ⟨steps', rfl⟩ : ∃ n, steps' = n + 1 := ⟨steps' - 1, by omega⟩
    have hLe' : steps ≤ steps' := by omega
    refine (readOperand_suffices (ih hLe') hEnds (by omega) hLe' (by omega)).bind hEnds ?_
    intro left c₁ hEnds₁ hLength
    exact readOperators_suffices (ih hLe') hEnds₁ (by omega) hLe' (by omega) power left

end Expr

/-! ## Statements -/

theorem TypeName.reader_suffices (bound : Nat) :
    SufficesBelow TypeName.reader TypeName.reader bound := by
  intro c hEnds hBound
  refine suffices_expectFor hEnds (by decide) (fun _ _ => ?_) _
  exact suffices_pure _

theorem Parameter.reader_suffices (bound : Nat) :
    SufficesBelow Parameter.reader Parameter.reader bound := by
  intro c hEnds hBound
  refine suffices_expectFor hEnds (by decide) (fun hEnds₁ hLength₁ => ?_) _
  refine (suffices_expect hEnds₁ (by decide) fun hEnds₂ hLength₂ => ?_).weaken
  exact ((TypeName.reader_suffices bound hEnds₂ (by omega)).bind_pure hEnds₂ _).weaken

namespace Block

section Repeat

variable {stmt stmt' : Reader Stmt} {bound steps steps' : Nat}
  (hStmt : SufficesBelow stmt stmt' bound) (hLe : steps ≤ steps')

include hStmt hLe

/-- A loop that reads one statement after another has enough steps if it has them wherever it reads
no statement. -/
theorem repeat_suffices {loop loop' : Nat → Reader (List Stmt)}
    (hLoop : ∀ {steps steps' : Nat} {c : Cursor},
      Suffices (do let first ← stmt; let others ← loop steps; return first :: others)
        (do let first ← stmt'; let others ← loop' steps'; return first :: others) 0 c →
      Suffices (loop (steps + 1)) (loop' (steps' + 1)) 0 c)
    {c : Cursor} (hEnds : c.Ends) (hBound : c.rest.length < bound)
    (hSteps : c.rest.length < steps) : Suffices (loop steps) (loop' steps') 0 c := by
  induction steps generalizing steps' c with
  | zero => omega
  | succ steps ih =>
    obtain ⟨steps', rfl⟩ : ∃ n, steps' = n + 1 := ⟨steps' - 1, by omega⟩
    apply hLoop
    refine ((hStmt hEnds hBound).bind hEnds fun hEnds₁ hLength => ?_).weaken
    exact (ih (by omega) hEnds₁ (by omega) (by omega)).bind_pure hEnds₁ _

theorem readAll_suffices {c : Cursor} (hEnds : c.Ends) (hBound : c.rest.length < bound)
    (hSteps : c.rest.length < steps) :
    Suffices (readAll stmt steps) (readAll stmt' steps') 0 c := by
  refine repeat_suffices hStmt hLe ?_ hEnds hBound hSteps
  intro steps steps' c hMore
  exact suffices_ite (fun _ => suffices_pure _) fun _ => hMore

theorem readBody_suffices {c : Cursor} (hEnds : c.Ends) (hBound : c.rest.length < bound)
    (hSteps : c.rest.length < steps) :
    Suffices (readBody stmt steps) (readBody stmt' steps') 0 c := by
  refine repeat_suffices hStmt hLe ?_ hEnds hBound hSteps
  intro steps steps' c hMore
  apply suffices_kind
  split
  · exact suffices_pure _
  · exact suffices_failFor _
  · exact hMore

/-- The opening brace needs no step. -/
theorem reader_suffices (hSteps : bound ≤ steps) :
    SufficesBelow (reader stmt steps) (reader stmt' steps') (bound + 1) := by
  intro c hEnds hBound
  refine suffices_expect hEnds (by decide) fun hEnds₁ hLength => ?_
  have hBody := readBody_suffices hStmt hLe hEnds₁ (by omega) (by omega)
  exact hBody.closed hEnds₁ (by decide) _

end Repeat

end Block

namespace Stmt

section Constructs

variable {expr expr' : Power → Reader Expr} {bound : Nat}
  (hExpr : ∀ power, SufficesBelow (expr power) (expr' power) bound) {c : Cursor} (hEnds : c.Ends)

include hExpr hEnds

/-- The expression at the end of a statement and its semicolon. -/
theorem value_suffices (g : Expr → Stmt) (hBound : c.rest.length < bound) :
    Suffices (do let value ← expr .lowest; let _ ← expect .semicolon; return g value)
      (do let value ← expr' .lowest; let _ ← expect .semicolon; return g value) 0 c :=
  ((hExpr .lowest hEnds hBound).closed hEnds (by decide) g).weaken

variable (hBound : c.rest.length ≤ bound) (hKind : c.kind ≠ .eof)

include hBound hKind

theorem readVar_suffices : Suffices (readVar expr) (readVar expr') 1 c := by
  refine suffices_next hEnds hKind fun hEnds₁ hLength₁ => ?_
  refine (suffices_expectFor hEnds₁ (by decide) (fun hEnds₂ hLength₂ => ?_) _).weaken
  refine (suffices_expectFor hEnds₂ (by decide) (fun hEnds₃ hLength₃ => ?_) _).weaken
  refine ((TypeName.reader_suffices bound hEnds₃ (by omega)).bind hEnds₃ ?_).weaken
  intro typeName c₄ hEnds₄ hLength₄
  refine suffices_ite (fun hAssign => ?_) fun _ => ?_
  · refine (suffices_next hEnds₄ (by rw [hAssign]; decide) fun hEnds₅ hLength₅ => ?_).weaken
    exact value_suffices hExpr hEnds₅ _ (by omega)
  · exact (suffices_expect_pure hEnds₄ (by decide) _).weaken

theorem readConst_suffices : Suffices (readConst expr) (readConst expr') 1 c := by
  refine suffices_next hEnds hKind fun hEnds₁ hLength₁ => ?_
  refine (suffices_expectFor hEnds₁ (by decide) (fun hEnds₂ hLength₂ => ?_) _).weaken
  refine (suffices_expectFor hEnds₂ (by decide) (fun hEnds₃ hLength₃ => ?_) _).weaken
  exact value_suffices hExpr hEnds₃ _ (by omega)

theorem readValue_suffices (make : Expr → UInt32 → Stmt) :
    Suffices (readValue expr make) (readValue expr' make) 1 c := by
  refine suffices_next hEnds hKind fun hEnds₁ hLength₁ => ?_
  exact value_suffices hExpr hEnds₁ _ (by omega)

theorem readAssign_suffices : Suffices (readAssign expr) (readAssign expr') 1 c := by
  apply suffices_nextKind
  by_cases hAssign : c.nextKind = .assign
  · rw [if_pos hAssign, if_pos hAssign]
    have hAssign' : c.advance.kind ≠ .eof := by
      rw [show c.advance.kind = .assign from hAssign]
      decide
    refine suffices_next hEnds hKind fun hEnds₁ hLength₁ => ?_
    refine (suffices_next hEnds₁ hAssign' fun hEnds₂ hLength₂ => ?_).weaken
    exact value_suffices hExpr hEnds₂ _ (by omega)
  · rw [if_neg hAssign, if_neg hAssign]
    exact suffices_failFor _

variable {block block' : Reader Block} (hBlock : SufficesBelow block block' (bound + 1))

include hBlock

theorem readLoop_suffices : Suffices (readLoop expr block) (readLoop expr' block') 1 c := by
  refine suffices_next hEnds hKind fun hEnds₁ hLength₁ => ?_
  refine ((hExpr .lowest hEnds₁ (by omega)).bind hEnds₁ fun hEnds₂ hLength₂ => ?_).weaken
  exact ((hBlock hEnds₂ (by omega)).bind_pure hEnds₂ _).weaken

theorem readBranch_suffices {steps steps' : Nat} (hLe : steps ≤ steps')
    (hSteps : c.rest.length ≤ steps) :
    Suffices (readBranch expr block steps) (readBranch expr' block' steps') 1 c := by
  induction steps generalizing steps' c with
  | zero =>
    -- The cursor is not on the end, so there is a token after it and a step for it.
    have hLength := (hEnds.advance hKind).2
    omega
  | succ steps ih =>
    obtain ⟨steps', rfl⟩ : ∃ n, steps' = n + 1 := ⟨steps' - 1, by omega⟩
    refine suffices_next hEnds hKind fun hEnds₁ hLength₁ => ?_
    refine ((hExpr .lowest hEnds₁ (by omega)).bind hEnds₁ fun hEnds₂ hLength₂ => ?_).weaken
    refine ((hBlock hEnds₂ (by omega)).bind hEnds₂ fun hEnds₃ hLength₃ => ?_).weaken
    refine suffices_ite (fun hElse => ?_) fun _ => suffices_pure _
    refine (suffices_next hEnds₃ (by rw [hElse]; decide) fun hEnds₄ hLength₄ => ?_).weaken
    refine suffices_ite (fun hIf => ?_) fun _ => ?_
    · have hLe' : steps ≤ steps' := by omega
      have hInner := ih hEnds₄ (by omega) (by rw [hIf]; decide) hLe' (by omega)
      exact (hInner.bind_pure hEnds₄ _).weaken
    · exact ((hBlock hEnds₄ (by omega)).bind_pure hEnds₄ _).weaken

omit hExpr in
theorem readFn_suffices {steps steps' : Nat} (hLe : steps ≤ steps')
    (hSteps : c.rest.length ≤ steps) :
    Suffices (readFn block steps) (readFn block' steps') 1 c := by
  refine suffices_next hEnds hKind fun hEnds₁ hLength₁ => ?_
  refine (suffices_expectFor hEnds₁ (by decide) (fun hEnds₂ hLength₂ => ?_) _).weaken
  have hParameters := parenthesised_suffices (Parameter.reader_suffices steps) hLe hEnds₂ (by omega)
    (by omega)
  refine (hParameters.bind hEnds₂ fun hEnds₃ hLength₃ => ?_).weaken
  refine (suffices_expectFor hEnds₃ (by decide) (fun hEnds₄ hLength₄ => ?_) _).weaken
  refine ((TypeName.reader_suffices bound hEnds₄ (by omega)).bind hEnds₄ ?_).weaken
  intro returns c₅ hEnds₅ hLength₅
  exact ((hBlock hEnds₅ (by omega)).bind_pure hEnds₅ _).weaken

end Constructs

/-- A reader of statements has enough steps if it has more of them than there are tokens left. -/
theorem reader_suffices {steps steps' : Nat} (hLe : steps ≤ steps') :
    SufficesBelow (reader .standard steps) (reader .standard steps') steps := by
  induction steps generalizing steps' with
  | zero => exact fun _ hBound => absurd hBound (Nat.not_lt_zero _)
  | succ steps ih =>
    intro c hEnds hBound
    obtain ⟨steps', rfl⟩ : ∃ n, steps' = n + 1 := ⟨steps' - 1, by omega⟩
    have hLe' : steps ≤ steps' := by omega
    have hBound' : c.rest.length ≤ steps := by omega
    have hExpr := Expr.reader_suffices hLe'
    have hBlock : SufficesBelow (Block.reader (reader .standard steps) steps)
        (Block.reader (reader .standard steps') steps') (steps + 1) :=
      Block.reader_suffices (ih hLe') hLe' (Nat.le_refl _)
    apply suffices_kind
    cases hForm : Tables.standard.stmt? c.kind with
    | none => exact suffices_failFor _
    | some form =>
      have hKind := (Tables.standard_stmt?_ne hForm).2.1
      -- The form `any` would go round without a token, but no kind of token has it.
      cases form with
      | any => cases Tables.standard_stmt?_eq_some.mp hForm
      | varDecl => exact readVar_suffices hExpr hEnds hBound' hKind
      | constDecl => exact readConst_suffices hExpr hEnds hBound' hKind
      | echo => exact readValue_suffices hExpr hEnds hBound' hKind .echo
      | branch => exact readBranch_suffices hExpr hEnds hBound' hKind hBlock hLe' hBound'
      | loop => exact readLoop_suffices hExpr hEnds hBound' hKind hBlock
      | fnDecl => exact readFn_suffices hEnds hBound' hKind hBlock hLe' hBound'
      | ret =>
        exact readValue_suffices hExpr hEnds hBound' hKind fun value line => .ret value ⟨line, none⟩
      | assign => exact readAssign_suffices hExpr hEnds hBound' hKind

end Stmt

/-! ## Programs -/

namespace Block

theorem reader_terminates {c : Cursor} (hEnds : c.Ends) :
    Terminates (fun steps => reader (Stmt.reader .standard steps) steps) 1 c := by
  refine terminates_of_suffices fun hLe hSteps => ?_
  exact reader_suffices (Stmt.reader_suffices hLe) hLe (Nat.le_refl _) hEnds
    (Nat.lt_succ_of_lt hSteps)

theorem readAll_terminates {c : Cursor} (hEnds : c.Ends) :
    Terminates (fun steps => readAll (Stmt.reader .standard steps) steps) 0 c := by
  refine terminates_of_suffices fun hLe hSteps => ?_
  exact readAll_suffices (Stmt.reader_suffices hLe) hLe hEnds hSteps hSteps

/-- Every list of tokens is read with a budget of at most four steps more than it has tokens. The
budget is never used up, and more steps change nothing. The same holds from every place of the list
on for statements, blocks, types and expressions of any power: the cursor never moves back or out of
the list, and past each of them it has moved ahead. -/
theorem ofTokens_terminates (tokens : List Token) :
    let start := Cursor.ofTokens tokens
    start.budget ≤ tokens.length + 4 ∧
      Terminates (fun steps => readAll (Stmt.reader .standard steps) steps) 0 start ∧
      (∀ fault, ofTokens tokens = .error fault → fault.cause ≠ .tooDeep) ∧
      ∀ c, start.Leads c →
        Terminates (Stmt.reader .standard) 1 c ∧
        Terminates (fun steps => reader (Stmt.reader .standard steps) steps) 1 c ∧
        Terminates (fun _ => TypeName.reader) 1 c ∧
        ∀ power, Terminates (fun steps => Expr.reader .standard steps power) 1 c := by
  intro start
  have hAll := readAll_terminates (Cursor.ends_ofTokens tokens)
  refine ⟨?_, hAll, ?_, ?_⟩
  · exact Nat.add_le_add_right (Cursor.rest_ofTokens_le tokens) 4
  · intro fault hFault
    simp only [ofTokens] at hFault
    split at hFault
    · cases hFault
    · next fault' c' hRead =>
      obtain rfl := Except.error.inj hFault
      exact (hAll.error fault' c' hRead).1
  · intro c hPlace
    have hEnds := hPlace.ends
    refine ⟨?_, reader_terminates hEnds, ?_, fun power => ?_⟩
    · exact terminates_of_suffices fun hLe hSteps => Stmt.reader_suffices hLe hEnds hSteps
    · exact terminates_of_suffices fun _ hSteps => TypeName.reader_suffices _ hEnds hSteps
    · exact terminates_of_suffices fun hLe hSteps => Expr.reader_suffices hLe power hEnds hSteps

end Block

end Jingle.Syntax

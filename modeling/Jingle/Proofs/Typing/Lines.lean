import Jingle.Proofs.Grammar.Program
import Jingle.Proofs.Syntax.Tree
import Jingle.Proofs.Typing.Declaration

/-!
# Lines of nodes and diagnostics

Reading gives every node the line of one of the tokens that the node is made of, and checking
reports what is wrong with a node on the line of that node or of one of its parts.

* `ProgramIn.on` leads from the lines of tokens to the lines of the nodes of a program.
* `Stmt.checkAll_on` leads from the lines of nodes to the lines of the diagnostics.
-/

namespace Jingle.Syntax

/-- A node that is on a line of some sort. -/
def Node.On (P : UInt32 → Prop) (node : Node) : Prop :=
  P node.line

end Jingle.Syntax

/-! ## Trees of the grammar -/

namespace Jingle.Grammar

open Syntax

variable {P : UInt32 → Prop}

mutual

theorem ExprIn.on {stratum : Stratum} {tokens : List Token} {e : Expr} :
    ExprIn stratum tokens e → (∀ token ∈ tokens, P token.line) → e.All (Node.On P)
  | .chain _ hFirst hRest, h =>
    have h := List.forall_mem_append.mp h
    hRest.on h.2 (hFirst.on h.1)
  | .prefixed _ hOperand, h =>
    have h := List.forall_mem_cons.mp h
    ⟨h.1, hOperand.on h.2⟩
  | .literal _, h =>
    have h := List.forall_mem_singleton.mp h
    h
  | .symbol _, h =>
    have h := List.forall_mem_singleton.mp h
    ⟨h, h⟩
  | .call _ hArguments, h =>
    have h := List.forall_mem_cons.mp h
    ⟨h.1, parenthesised_on hArguments h.2⟩
  | .grouped _ hInner _, h =>
    hInner.on (List.forall_mem_append.mp (List.forall_mem_cons.mp h).2).1

theorem ChainIn.on {stratum : Stratum} {tokens : List Token} {left tree : Expr} :
    ChainIn stratum left tokens tree → (∀ token ∈ tokens, P token.line) →
      left.All (Node.On P) → tree.All (Node.On P)
  | .nil, _, hLeft => hLeft
  | .cons _ hRight hRest, h, hLeft =>
    have h := List.forall_mem_cons.mp h
    have hParts := List.forall_mem_append.mp h.2
    hRest.on hParts.2 ⟨h.1, hLeft, hRight.on hParts.1⟩

theorem parenthesised_on {tokens : List Token} {exprs : List Expr} :
    Parenthesised (ExprIn .logical) tokens exprs → (∀ token ∈ tokens, P token.line) →
      Expr.AllIn (Node.On P) exprs
  | .none _ _, _ => trivial
  | .some _ hExprs _, h =>
    separated_on hExprs (List.forall_mem_append.mp (List.forall_mem_cons.mp h).2).1

theorem separated_on {tokens : List Token} {exprs : List Expr} :
    Separated (ExprIn .logical) tokens exprs → (∀ token ∈ tokens, P token.line) →
      Expr.AllIn (Node.On P) exprs
  | .last hLast, h => ⟨hLast.on h, trivial⟩
  | .more hFirst _ hOthers, h =>
    have h := List.forall_mem_append.mp h
    ⟨hFirst.on h.1, separated_on hOthers (List.forall_mem_cons.mp h.2).2⟩

end

theorem TypeNameIn.on {token : Token} {typeName : TypeName} (h : TypeNameIn token typeName)
    (hToken : P token.line) : (Node.typeName typeName).On P := by
  cases h
  exact hToken

theorem ParameterIn.on {tokens : List Token} {parameter : Parameter}
    (h : ParameterIn tokens parameter) (hTokens : ∀ token ∈ tokens, P token.line) :
    parameter.All (Node.On P) := by
  cases h with
  | parameter _ _ hType =>
    simp only [List.forall_mem_cons] at hTokens
    obtain ⟨hName, -, hTypeToken, -⟩ := hTokens
    exact ⟨hName, hType.on hTypeToken⟩

theorem Separated.parameters_on {tokens : List Token} {parameters : List Parameter}
    (h : Separated ParameterIn tokens parameters) (hTokens : ∀ token ∈ tokens, P token.line) :
    ∀ parameter ∈ parameters, parameter.All (Node.On P) := by
  induction h with
  | last hLast => exact List.forall_mem_singleton.mpr (hLast.on hTokens)
  | more hFirst _ _ ih =>
    obtain ⟨hHead, hTail⟩ := List.forall_mem_append.mp hTokens
    exact List.forall_mem_cons.mpr ⟨hFirst.on hHead, ih (List.forall_mem_cons.mp hTail).2⟩

theorem Parenthesised.parameters_on {tokens : List Token} {parameters : List Parameter}
    (h : Parenthesised ParameterIn tokens parameters) (hTokens : ∀ token ∈ tokens, P token.line) :
    ∀ parameter ∈ parameters, parameter.All (Node.On P) := by
  cases h with
  | none => exact List.forall_mem_nil _
  | some _ hParameters _ =>
    have hInside := (List.forall_mem_cons.mp hTokens).2
    exact hParameters.parameters_on (List.forall_mem_append.mp hInside).1

mutual

theorem StmtIn.on {tokens : List Token} {s : Stmt} :
    StmtIn tokens s → (∀ token ∈ tokens, P token.line) → s.All (Node.On P)
  | .varDecl _ _ _ hType _, h => by
    simp only [List.forall_mem_cons] at h
    obtain ⟨hStart, -, -, hToken, -⟩ := h
    exact ⟨hStart, hType.on hToken, by simp⟩
  | .varDeclTo _ _ _ hType _ hValue _, h => by
    simp only [List.forall_mem_cons, List.forall_mem_append] at h
    obtain ⟨hStart, -, -, hToken, -, hTokens, -⟩ := h
    exact ⟨hStart, hType.on hToken, by simpa using hValue.on hTokens⟩
  | .constDecl _ _ _ hValue _, h => by
    simp only [List.forall_mem_cons, List.forall_mem_append] at h
    obtain ⟨hStart, -, -, hTokens, -⟩ := h
    exact ⟨hStart, hValue.on hTokens⟩
  | .echo _ hValue _, h | .ret _ hValue _, h => by
    simp only [List.forall_mem_cons, List.forall_mem_append] at h
    obtain ⟨hStart, hTokens, -⟩ := h
    exact ⟨hStart, hValue.on hTokens⟩
  | .branch hBranch, h => hBranch.on h
  | .loop _ hCondition hBody, h => by
    simp only [List.forall_mem_cons, List.forall_mem_append] at h
    obtain ⟨hStart, hTokens, hOthers⟩ := h
    exact Stmt.all_loop.mpr ⟨hStart, hCondition.on hTokens, hBody.on hOthers⟩
  | .fnDecl _ _ hParameters _ hType hBody, h => by
    simp only [List.forall_mem_cons, List.forall_mem_append] at h
    obtain ⟨hStart, -, hTokens, -, hToken, hOthers⟩ := h
    exact Stmt.all_fnDecl.mpr
      ⟨hStart, hParameters.parameters_on hTokens, hType.on hToken, hBody.on hOthers⟩
  | .assign _ _ hValue _, h => by
    simp only [List.forall_mem_cons, List.forall_mem_append] at h
    obtain ⟨hTarget, -, hTokens, -⟩ := h
    exact ⟨hTarget, hTarget, hValue.on hTokens⟩

theorem BranchIn.on {tokens : List Token} {s : Stmt} :
    BranchIn tokens s → (∀ token ∈ tokens, P token.line) → s.All (Node.On P)
  | .branch _ hCondition hThen hElse, h => by
    simp only [List.forall_mem_cons, List.forall_mem_append] at h
    obtain ⟨hStart, hTokens, hThenTokens, hElseTokens⟩ := h
    exact Stmt.all_branch.mpr
      ⟨hStart, hCondition.on hTokens, hThen.on hThenTokens, hElse.on hElseTokens⟩

theorem ElseIn.on {line : UInt32} {tokens : List Token} {block : Block} :
    ElseIn line tokens block → (∀ token ∈ tokens, P token.line) →
      Stmt.AllIn (Node.On P) block.body
  | .missing, _ => trivial
  | .block _ hBlock, h => hBlock.on (List.forall_mem_cons.mp h).2
  | .branch _ hBranch, h => ⟨hBranch.on (List.forall_mem_cons.mp h).2, trivial⟩

theorem BlockIn.on {tokens : List Token} {block : Block} :
    BlockIn tokens block → (∀ token ∈ tokens, P token.line) → Stmt.AllIn (Node.On P) block.body
  | .block _ hBody _, h => hBody.on (List.forall_mem_append.mp (List.forall_mem_cons.mp h).2).1

theorem StmtsIn.on {tokens : List Token} {stmts : List Stmt} :
    StmtsIn tokens stmts → (∀ token ∈ tokens, P token.line) → Stmt.AllIn (Node.On P) stmts
  | .nil, _ => trivial
  | .cons hFirst hOthers, h =>
    have h := List.forall_mem_append.mp h
    ⟨hFirst.on h.1, hOthers.on h.2⟩

end

/-- Every node of a program is on a line of a token of the program. -/
theorem ProgramIn.on {tokens : List Token} {block : Block} (hIn : ProgramIn tokens block)
    (h : ∀ token ∈ tokens, P token.line) : Stmt.AllIn (Node.On P) block.body := by
  cases hIn with
  | program hBody => exact hBody.on h

end Jingle.Grammar

/-! ## Checking -/

namespace Jingle.Typing

open Syntax

variable {P : UInt32 → Prop}

theorem violation_on (violation? : Option Violation) {line : UInt32} (h : P line) :
    ∀ d ∈ violation?.toList.map (⟨line, ·⟩ : Violation → Diagnostic), P d.line := by
  intro d hMem
  obtain ⟨violation, -, rfl⟩ := List.mem_map.mp hMem
  exact h

theorem Verdict.diagnostics_on (verdict : Verdict) {line : UInt32} (h : P line) :
    ∀ d ∈ verdict.diagnostics line, P d.line :=
  violation_on verdict.violation h

end Jingle.Typing

namespace Jingle.Syntax

open Typing

variable {P : UInt32 → Prop}

theorem TypeName.check_on {typeName : TypeName} (h : P typeName.line) :
    ∀ d ∈ typeName.check.2, P d.line :=
  Verdict.diagnostics_on _ h

mutual

theorem Expr.check_on (state : State) :
    ∀ {e : Expr}, e.All (Node.On P) → ∀ d ∈ (e.check state).2, P d.line
  | .literal .., _ => List.forall_mem_nil _
  | .binary _ left right _, ⟨h, hLeft, hRight⟩ => by
    have hLeft := left.check_on state hLeft
    have hRight := right.check_on state hRight
    simp only [Expr.check, List.forall_mem_append]
    exact ⟨⟨hLeft, hRight⟩, Verdict.diagnostics_on _ h⟩
  | .unary _ operand _, ⟨h, hOperand⟩ => by
    have hOperand := operand.check_on state hOperand
    simp only [Expr.check, List.forall_mem_append]
    exact ⟨hOperand, Verdict.diagnostics_on _ h⟩
  | .symbol .., ⟨_, h⟩ => Verdict.diagnostics_on _ h
  | .call .., ⟨h, hArguments⟩ => by
    have hArguments := Expr.checkAll_on state hArguments
    simp only [Expr.check, List.forall_mem_append]
    exact ⟨hArguments, Verdict.diagnostics_on _ h⟩

theorem Expr.checkAll_on (state : State) :
    ∀ {exprs : List Expr}, Expr.AllIn (Node.On P) exprs →
      ∀ d ∈ (Expr.checkAll state exprs).2, P d.line
  | [], _ => List.forall_mem_nil _
  | e :: exprs, ⟨hFirst, hOthers⟩ => by
    have hFirst := e.check_on state hFirst
    have hOthers := Expr.checkAll_on state hOthers
    simp only [Expr.checkAll, List.forall_mem_append]
    exact ⟨hFirst, hOthers⟩

end

theorem Expr.checkOption_on (state : State) {value : Option Expr}
    (h : ∀ e ∈ value, e.All (Node.On P)) : ∀ d ∈ (Expr.checkOption state value).2, P d.line := by
  cases value with
  | none => exact List.forall_mem_nil _
  | some e => exact e.check_on state (h e rfl)

theorem Parameter.checkAll_on {parameters : List Parameter}
    (h : ∀ parameter ∈ parameters, parameter.All (Node.On P)) :
    ∀ d ∈ (Parameter.checkAll parameters).2, P d.line := by
  induction parameters with
  | nil => exact List.forall_mem_nil _
  | cons parameter parameters ih =>
    obtain ⟨hFirst, hOthers⟩ := List.forall_mem_cons.mp h
    exact List.forall_mem_append.mpr ⟨TypeName.check_on hFirst.2, ih hOthers⟩

namespace Stmt

/-- What stands against a declaration is reported on the line of the declaration. -/
theorem checkVar_on (state : State) {name : String} {typeName : TypeName} {value : Option Expr}
    {info : Info} (h : P info.line) (hType : P typeName.line)
    (hValue : ∀ e ∈ value, e.All (Node.On P)) :
    ∀ d ∈ (checkVar state name typeName value info).2.2, P d.line := by
  cases hObstacle : state.scopes.obstacle? name with
  | some violation =>
    rw [checkVar_of_taken _ _ _ hObstacle]
    exact List.forall_mem_singleton.mpr h
  | none =>
    rw [checkVar_of_free _ _ _ hObstacle]
    have hOption := Expr.checkOption_on state hValue
    exact List.forall_mem_append.mpr
      ⟨List.forall_mem_append.mpr ⟨TypeName.check_on hType, hOption⟩, Verdict.diagnostics_on _ h⟩

theorem checkConst_on (state : State) {name : String} {value : Expr} {info : Info}
    (h : P info.line) (hValue : value.All (Node.On P)) :
    ∀ d ∈ (checkConst state name value info).2.2, P d.line := by
  cases hObstacle : state.scopes.obstacle? name with
  | some violation =>
    rw [checkConst_of_taken _ _ hObstacle]
    exact List.forall_mem_singleton.mpr h
  | none =>
    rw [checkConst_of_free _ _ hObstacle]
    exact value.check_on state hValue

theorem checkHead_on (state : State) (name : String) {parameters : List Parameter}
    {returns : TypeName} {line : UInt32} (h : P line)
    (hParameters : ∀ parameter ∈ parameters, parameter.All (Node.On P))
    (hReturns : P returns.line) :
    ∀ d ∈ (checkHead state name parameters returns line).2.2, P d.line := by
  have hParameters := Parameter.checkAll_on hParameters
  simp only [checkHead, List.forall_mem_append]
  refine ⟨⟨⟨?_, hParameters⟩, ?_⟩, TypeName.check_on hReturns⟩
  · intro d hMem
    rw [Option.mem_toList, Option.map_eq_some_iff] at hMem
    obtain ⟨signature, -, rfl⟩ := hMem
    exact h
  · split
    · exact List.forall_mem_singleton.mpr h
    · exact List.forall_mem_nil _

mutual

theorem check_on (state : State) (returns : Option Returns) :
    ∀ {s : Stmt}, s.All (Node.On P) → ∀ d ∈ (s.check state returns).diagnostics, P d.line
  | .varDecl .., ⟨h, hType, hValue⟩ => checkVar_on state h hType hValue
  | .constDecl .., ⟨h, hValue⟩ => checkConst_on state h hValue
  | .echo value _, ⟨_, hValue⟩ => value.check_on state hValue
  | .branch condition ⟨_, thenBody⟩ ⟨_, elseBody⟩ _, ⟨h, hCondition, hThen, hElse⟩ => by
    have hCondition := condition.check_on state hCondition
    simp only [check]
    split
    · simp only [List.forall_mem_append]
      exact ⟨⟨hCondition, checkAll_on _ _ hThen⟩, checkAll_on _ _ hElse⟩
    · simp only [List.forall_mem_append]
      exact ⟨hCondition, Verdict.diagnostics_on _ h⟩
  | .loop condition ⟨_, body⟩ _, ⟨h, hCondition, hBody⟩ => by
    have hCondition := condition.check_on state hCondition
    simp only [check]
    split
    · simp only [List.forall_mem_append]
      exact ⟨hCondition, checkAll_on _ _ hBody⟩
    · simp only [List.forall_mem_append]
      exact ⟨hCondition, Verdict.diagnostics_on _ h⟩
  | .assign _ value _, ⟨h, hTarget, hValue⟩ => by
    have hValue := value.check_on state hValue
    simp only [check, checkAssign, List.forall_mem_append]
    exact ⟨⟨Verdict.diagnostics_on _ hTarget, hValue⟩, Verdict.diagnostics_on _ h⟩
  | .fnDecl name _ _ ⟨_, body⟩ _, ⟨h, hParameters, hReturns, hBody⟩ => by
    have hHead := checkHead_on state name h hParameters hReturns
    simp only [check]
    split
    · exact List.forall_mem_append.mpr ⟨hHead, List.forall_mem_singleton.mpr h⟩
    · simp only [List.forall_mem_append]
      exact ⟨⟨hHead, checkAll_on _ _ hBody⟩, violation_on _ h⟩
  | .ret value _, ⟨h, hValue⟩ => by
    have hValue := value.check_on state hValue
    simp only [check, List.forall_mem_append]
    exact ⟨hValue, Verdict.diagnostics_on _ h⟩

theorem checkAll_on (state : State) (returns : Option Returns) :
    ∀ {stmts : List Stmt}, Stmt.AllIn (Node.On P) stmts →
      ∀ d ∈ (checkAll state returns stmts).diagnostics, P d.line
  | [], _ => List.forall_mem_nil _
  | s :: stmts, ⟨hFirst, hOthers⟩ => by
    have hFirst := s.check_on state returns hFirst
    simp only [checkAll, List.forall_mem_append]
    exact ⟨hFirst, checkAll_on _ _ hOthers⟩

end

end Stmt

end Jingle.Syntax

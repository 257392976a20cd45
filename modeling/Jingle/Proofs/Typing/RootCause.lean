import Jingle.Proofs.Syntax.Tree
import Jingle.Proofs.Typing.Erasure

/-!
# One diagnostic for each cause

A mistake in an expression is reported where it is made. The nodes around it have no type, and for
that reason they are not reported on. So the diagnostics of an expression are told by its nodes
alone: each node that breaks a rule while the types that the rule asks for are known has one, and no
other node has any.

* `Expr.Breaks` says which nodes break a rule, and which diagnostic they have.
* `Reported` goes through the nodes of an expression, one diagnostic for each that breaks a rule.
* `Expr.check_reports_causes` says that the diagnostics of an expression are of this form.
-/

namespace Jingle.Syntax

open Typing

/-! ## Nodes that break a rule -/

mutual

/-- The nodes of an expression, each after its parts and the parts from left to right. -/
def Expr.postorder : Expr → List Expr
  | e@(.literal ..) => [e]
  | e@(.binary _ left right _) => left.postorder ++ right.postorder ++ [e]
  | e@(.unary _ operand _) => operand.postorder ++ [e]
  | e@(.symbol ..) => [e]
  | e@(.call _ arguments _) => Expr.postorders arguments ++ [e]

/-- The nodes of expressions one after another. -/
def Expr.postorders : List Expr → List Expr
  | [] => []
  | e :: exprs => e.postorder ++ Expr.postorders exprs

end

/-- An annotated node breaks a rule that its parts allow to be applied, and has the given
diagnostic for it. -/
inductive Expr.Breaks (state : State) : Expr → Diagnostic → Prop where
  | nameNotDefined {location : Location} {info : Info} :
      state.scopes.resolve? location.name = none →
      Breaks state (.symbol location info) ⟨location.line, .nameNotDefined location.name⟩
  | binaryOperation {op : BinaryOp} {left right : Expr} {info : Info} {leftTy rightTy : Ty} :
      left.ty = some leftTy → right.ty = some rightTy → Ty.binary? op leftTy rightTy = none →
      Breaks state (.binary op left right info)
        ⟨info.line, .binaryOperation leftTy.name op.symbol rightTy.name⟩
  | unaryOperation {op : UnaryOp} {operand : Expr} {info : Info} {ty : Ty} :
      operand.ty = some ty → Ty.unary? op ty = none →
      Breaks state (.unary op operand info) ⟨info.line, .unaryOperation op.symbol ty.name⟩
  | functionNotDeclared {callee : String} {arguments : List Expr} {info : Info} :
      state.functions.get? callee = none →
      Breaks state (.call callee arguments info) ⟨info.line, .functionNotDeclared callee⟩
  | argumentMismatch {callee : String} {arguments : List Expr} {info : Info}
      {signature : Signature} {expected received : List Ty} :
      state.functions.get? callee = some signature →
      signature.Refuses (arguments.map Expr.ty) expected received →
      Breaks state (.call callee arguments info)
        ⟨info.line, .argumentMismatch callee (Ty.tuple expected) (Ty.tuple received)⟩

/-- A node has at most one diagnostic. -/
theorem Expr.Breaks.unique {state : State} {e : Expr} {d d' : Diagnostic} (h : e.Breaks state d)
    (h' : e.Breaks state d') : d = d' := by
  cases h with
  | nameNotDefined => cases h'; rfl
  | binaryOperation hLeft hRight =>
    cases h' with
    | binaryOperation hLeft' hRight' =>
      obtain rfl := Option.some.inj (hLeft.symm.trans hLeft')
      obtain rfl := Option.some.inj (hRight.symm.trans hRight')
      rfl
  | unaryOperation hOperand =>
    cases h' with
    | unaryOperation hOperand' =>
      obtain rfl := Option.some.inj (hOperand.symm.trans hOperand')
      rfl
  | functionNotDeclared hNone =>
    cases h' with
    | functionNotDeclared => rfl
    | argumentMismatch hSome => cases hNone.symm.trans hSome
  | argumentMismatch hSome hRefuses =>
    cases h' with
    | functionNotDeclared hNone => cases hNone.symm.trans hSome
    | argumentMismatch hSome' hRefuses' =>
      obtain rfl := Option.some.inj (hSome.symm.trans hSome')
      obtain ⟨hExpected, hReceived, -⟩ := hRefuses
      obtain ⟨hExpected', hReceived', -⟩ := hRefuses'
      have hSame {types types' : List Ty} : types.map some = types'.map some ↔ types = types' :=
        List.map_inj_right fun _ _ => Option.some.inj
      obtain rfl := hSame.mp (hExpected.symm.trans hExpected')
      obtain rfl := hSame.mp (hReceived.symm.trans hReceived')
      rfl

/-- Every node that breaks a rule has its diagnostic, in the order of the nodes, and no other node
has one. -/
inductive Reported (state : State) : List Expr → List Diagnostic → Prop where
  | nil : Reported state [] []
  | broken {e : Expr} {d : Diagnostic} {exprs : List Expr} {diagnostics : List Diagnostic} :
      e.Breaks state d → Reported state exprs diagnostics →
      Reported state (e :: exprs) (d :: diagnostics)
  | kept {e : Expr} {exprs : List Expr} {diagnostics : List Diagnostic} :
      (∀ d, ¬ e.Breaks state d) → Reported state exprs diagnostics →
      Reported state (e :: exprs) diagnostics

namespace Reported

variable {state : State}

theorem append {exprs exprs' : List Expr} {diagnostics diagnostics' : List Diagnostic}
    (h : Reported state exprs diagnostics) (h' : Reported state exprs' diagnostics') :
    Reported state (exprs ++ exprs') (diagnostics ++ diagnostics') := by
  induction h with
  | nil => exact h'
  | broken hBreaks _ ih => exact .broken hBreaks ih
  | kept hKept _ ih => exact .kept hKept ih

/-- The nodes of an expression determine its diagnostics. -/
theorem unique {exprs : List Expr} {diagnostics diagnostics' : List Diagnostic}
    (h : Reported state exprs diagnostics) (h' : Reported state exprs diagnostics') :
    diagnostics = diagnostics' := by
  induction h generalizing diagnostics' with
  | nil => cases h'; rfl
  | broken hBreaks _ ih =>
    cases h' with
    | broken hBreaks' hOthers => rw [hBreaks.unique hBreaks', ih hOthers]
    | kept hKept _ => exact absurd hBreaks (hKept _)
  | kept hKept _ ih =>
    cases h' with
    | broken hBreaks _ => exact absurd hBreaks (hKept _)
    | kept _ hOthers => exact ih hOthers

theorem single {e : Expr} {d : Diagnostic} (h : e.Breaks state d) : Reported state [e] [d] :=
  .broken h .nil

theorem silent {e : Expr} (h : ∀ d, ¬ e.Breaks state d) : Reported state [e] [] :=
  .kept h .nil

/-! ## Verdicts on nodes -/

theorem literal (value : Literal) (info : Info) : Reported state [.literal value info] [] := by
  apply silent
  intro d hBreaks
  cases hBreaks

theorem symbol (location : Location) (info : Info) :
    Reported state [.symbol location info]
      ((Verdict.ofLocation state.scopes location.name).diagnostics location.line) := by
  unfold Verdict.ofLocation Scopes.lookup
  cases hFound : state.scopes.resolve? location.name with
  | none => exact single (.nameNotDefined hFound)
  | some symbol =>
    apply silent
    intro d hBreaks
    cases hBreaks with
    | nameNotDefined hNone => cases hFound.symm.trans hNone

theorem binary (op : BinaryOp) (left right : Expr) (info : Info) :
    Reported state [.binary op left right info]
      ((Verdict.ofBinary op left.ty right.ty).diagnostics info.line) := by
  have hSilent (h : ∀ leftTy rightTy, left.ty = some leftTy → right.ty = some rightTy →
      Ty.binary? op leftTy rightTy ≠ none) : Reported state [.binary op left right info] [] := by
    apply silent
    intro d hBreaks
    cases hBreaks with
    | binaryOperation hLeft hRight hNone => exact h _ _ hLeft hRight hNone
  cases hLeft : left.ty with
  | none => exact hSilent (by simp [hLeft])
  | some leftTy =>
    cases hRight : right.ty with
    | none => exact hSilent (by simp [hRight])
    | some rightTy =>
      cases hTy : Ty.binary? op leftTy rightTy with
      | none =>
        simp only [Verdict.ofBinary, hTy]
        exact single (.binaryOperation hLeft hRight hTy)
      | some ty =>
        simp only [Verdict.ofBinary, hTy]
        exact hSilent (by simp [hLeft, hRight, hTy])

theorem unary (op : UnaryOp) (operand : Expr) (info : Info) :
    Reported state [.unary op operand info]
      ((Verdict.ofUnary op operand.ty).diagnostics info.line) := by
  have hSilent (h : ∀ ty, operand.ty = some ty → Ty.unary? op ty ≠ none) :
      Reported state [.unary op operand info] [] := by
    apply silent
    intro d hBreaks
    cases hBreaks with
    | unaryOperation hOperand hNone => exact h _ hOperand hNone
  cases hOperand : operand.ty with
  | none => exact hSilent (by simp [hOperand])
  | some operandTy =>
    cases hTy : Ty.unary? op operandTy with
    | none =>
      simp only [Verdict.ofUnary, hTy]
      exact single (.unaryOperation hOperand hTy)
    | some ty =>
      simp only [Verdict.ofUnary, hTy]
      exact hSilent (by simp [hOperand, hTy])

theorem call (callee : String) (arguments : List Expr) (info : Info) :
    Reported state [.call callee arguments info]
      ((Verdict.ofCall state.functions callee (arguments.map Expr.ty)).diagnostics info.line) := by
  rcases Verdict.ofCall_cases state.functions callee (arguments.map Expr.ty) with
    ⟨hNone, hVerdict⟩ | ⟨signature, expected, received, hSome, hRefuses, hVerdict⟩ |
      ⟨signature, hSome, hAccepts, hVerdict⟩
  · rw [hVerdict]
    exact single (.functionNotDeclared hNone)
  · rw [hVerdict]
    exact single (.argumentMismatch hSome hRefuses)
  · rw [hVerdict]
    apply silent
    intro d hBreaks
    cases hBreaks with
    | functionNotDeclared hNone => cases hNone.symm.trans hSome
    | argumentMismatch hSome' hRefuses =>
      obtain rfl := Option.some.inj (hSome.symm.trans hSome')
      exact hAccepts _ _ hRefuses

end Reported

/-! ## Expressions -/

mutual

/-- The diagnostics of an expression are those of its nodes that break a rule. -/
theorem Expr.check_reported (state : State) :
    ∀ e : Expr, Reported state (e.check state).1.postorder (e.check state).2
  | .literal value _ => .literal value _
  | .binary op left right _ => by
    have hParts := (left.check_reported state).append (right.check_reported state)
    exact hParts.append (.binary op (left.check state).1 (right.check state).1 _)
  | .unary op operand _ => by
    have hPart := operand.check_reported state
    exact hPart.append (.unary op (operand.check state).1 _)
  | .symbol location _ => .symbol (location.check state.scopes).1 _
  | .call callee arguments _ => by
    have hParts := Expr.checkAll_reported state arguments
    exact hParts.append (.call callee (Expr.checkAll state arguments).1 _)

theorem Expr.checkAll_reported (state : State) :
    ∀ exprs : List Expr,
      Reported state (Expr.postorders (Expr.checkAll state exprs).1) (Expr.checkAll state exprs).2
  | [] => .nil
  | e :: exprs => (e.check_reported state).append (Expr.checkAll_reported state exprs)

end

/-! ## Nodes without a type -/

/-- An operation on an operand without a type has no type either. A call has no type exactly if its
function is unknown, refuses the arguments, or is not known to return anything. -/
def Node.Suppressed (state : State) : Node → Prop
  | expr (.binary _ left right info) => left.ty = none ∨ right.ty = none → info.ty = none
  | expr (.unary _ operand info) => operand.ty = none → info.ty = none
  | expr (.call callee arguments info) =>
    info.ty = none ↔
      state.functions.get? callee = none ∨
        ∃ signature, state.functions.get? callee = some signature ∧
          ((∃ expected received, signature.Refuses (arguments.map Expr.ty) expected received) ∨
            signature.returns = none)
  | _ => True

mutual

theorem Expr.check_suppressed (state : State) :
    ∀ e : Expr, (e.check state).1.All (Node.Suppressed state)
  | .literal .. => trivial
  | .binary op left right _ => by
    refine ⟨?_, left.check_suppressed state, right.check_suppressed state⟩
    intro hAbsent
    rw [Verdict.ofBinary_ty]
    rcases hAbsent with hLeft | hRight
    · rw [hLeft, Option.bind_none]
    · simp [hRight]
  | .unary op operand _ => by
    refine ⟨?_, operand.check_suppressed state⟩
    intro hAbsent
    rw [Verdict.ofUnary_ty, hAbsent, Option.bind_none]
  | .symbol .. => ⟨trivial, trivial⟩
  | .call callee arguments _ =>
    ⟨Verdict.ofCall_ty_eq_none_iff .., Expr.checkAll_suppressed state arguments⟩

theorem Expr.checkAll_suppressed (state : State) :
    ∀ exprs : List Expr, Expr.AllIn (Node.Suppressed state) (Expr.checkAll state exprs).1
  | [] => trivial
  | e :: exprs => ⟨e.check_suppressed state, Expr.checkAll_suppressed state exprs⟩

end

mutual

theorem Expr.All.of_mem_postorder {P : Node → Prop} {node : Expr} :
    ∀ {e : Expr}, e.All P → node ∈ e.postorder → P (.expr node)
  | .literal .., h, hMem => by
    rw [List.mem_singleton.mp hMem]
    exact h
  | .binary _ left right _, ⟨h, hLeft, hRight⟩, hMem => by
    rcases List.mem_append.mp hMem with hMem | hMem
    · rcases List.mem_append.mp hMem with hMem | hMem
      · exact hLeft.of_mem_postorder hMem
      · exact hRight.of_mem_postorder hMem
    · rw [List.mem_singleton.mp hMem]
      exact h
  | .unary _ operand _, ⟨h, hOperand⟩, hMem => by
    rcases List.mem_append.mp hMem with hMem | hMem
    · exact hOperand.of_mem_postorder hMem
    · rw [List.mem_singleton.mp hMem]
      exact h
  | .symbol .., ⟨h, _⟩, hMem => by
    rw [List.mem_singleton.mp hMem]
    exact h
  | .call _ arguments _, ⟨h, hArguments⟩, hMem => by
    rcases List.mem_append.mp hMem with hMem | hMem
    · exact Expr.AllIn.of_mem_postorders hArguments hMem
    · rw [List.mem_singleton.mp hMem]
      exact h

theorem Expr.AllIn.of_mem_postorders {P : Node → Prop} {node : Expr} :
    ∀ {exprs : List Expr}, Expr.AllIn P exprs → node ∈ Expr.postorders exprs → P (.expr node)
  | _ :: _, ⟨hFirst, hOthers⟩, hMem => by
    rcases List.mem_append.mp hMem with hMem | hMem
    · exact hFirst.of_mem_postorder hMem
    · exact Expr.AllIn.of_mem_postorders hOthers hMem

end

/-- **One cause, one diagnostic.** Checking an expression changes nothing but the types of its
nodes, and a statement that does no more than that keeps what is known. The diagnostics are
determined by the nodes: one for each node that breaks a rule, in the order in which the nodes are
finished, and none for any other. Nodes without a type are those for which a diagnostic stands
elsewhere. -/
theorem Expr.check_reports_causes (state : State) (e : Expr) :
    let checked := e.check state
    (checked.1.eraseTypes = e.eraseTypes ∧ ∀ returns line, (Stmt.echo e line).check state returns =
      ⟨.echo checked.1 line, state, returns, checked.2⟩) ∧
    (∀ diagnostics, Reported state checked.1.postorder diagnostics ↔ diagnostics = checked.2) ∧
    ∀ node ∈ checked.1.postorder, (Node.expr node).Suppressed state := by
  refine ⟨⟨e.eraseTypes_check state, fun _ _ => rfl⟩, ?_, ?_⟩
  · intro diagnostics
    constructor
    · intro hReported
      exact hReported.unique (e.check_reported state)
    · rintro rfl
      exact e.check_reported state
  · intro node hMem
    exact (e.check_suppressed state).of_mem_postorder hMem

end Jingle.Syntax

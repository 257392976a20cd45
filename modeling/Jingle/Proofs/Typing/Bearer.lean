import Jingle.Proofs.Typing.Walk

/-!
# The nodes that diagnostics are about

Each rule is about one sort of node, so that what is reported at a place of a walk says which node
stands there.

* `Node.Bears` relates the nodes to the rules that they can break.
* `Node.bears_of_mem_reports` says that a diagnostic is on the line of a node that can break its
  rule.
-/

namespace Jingle.Syntax.Node

open Typing

/-- The node is of the sort that a broken rule is about, and it has the name that was refused. -/
def Bears (node : Node) : Violation → Prop
  | .nameNotDefined name => ∃ l, node = location l ∧ l.name = name
  | .nameAlreadyDefined name _ | .reservedIdentifier name =>
    (∃ a value info, node = stmt (.varDecl name a value info)) ∨
      ∃ value info, node = stmt (.constDecl name value info)
  | .constantAssignment _ | .assignmentMismatch .. =>
    ∃ target value info, node = stmt (.assign target value info)
  | .invalidType name => ∃ a, node = typeName a ∧ a.name = name
  | .declarationMismatch name _ _ => ∃ a value info, node = stmt (.varDecl name a value info)
  | .binaryOperation .. => ∃ op left right info, node = expr (.binary op left right info)
  | .unaryOperation .. => ∃ op operand info, node = expr (.unary op operand info)
  | .conditionNotBool _ =>
    (∃ condition first second line, node = stmt (.branch condition first second line)) ∨
      ∃ condition body line, node = stmt (.loop condition body line)
  | .returnTypeMismatch .. | .returnOutsideFunction => ∃ value info, node = stmt (.ret value info)
  | .argumentMismatch name _ _ | .functionNotDeclared name =>
    ∃ arguments info, node = expr (.call name arguments info)
  | .nestedFunction name | .functionAlreadyDefined name _ =>
    ∃ parameters a body line, node = stmt (.fnDecl name parameters a body line)
  | .duplicateParameters | .missingReturn _ | .tooManyReturnTypes _ =>
    ∃ name parameters a body line, node = stmt (.fnDecl name parameters a body line)

variable {point : Point}

theorem bears_of_obstacle {node : Node} {name : String} {violation : Violation}
    (hNode : (∃ a value info, node = stmt (.varDecl name a value info)) ∨
      ∃ value info, node = stmt (.constDecl name value info))
    (h : point.state.scopes.obstacle? name = some violation) : node.Bears violation := by
  rcases Scopes.obstacle?_eq_some h with rfl | ⟨existing, -, rfl⟩
  · exact hNode
  · exact hNode

theorem expr_bears {e : Expr} {d : Diagnostic} (h : d ∈ (expr e).reports point) :
    d.line = e.line ∧ (expr e).Bears d.violation := by
  cases e with
  | literal | symbol => cases h
  | binary op left right info =>
    obtain ⟨hLine, h⟩ := Verdict.mem_diagnostics.mp h
    refine ⟨hLine, ?_⟩
    unfold Verdict.ofBinary at h
    split at h
    · split at h
      · cases h
      · rw [← Option.some.inj h]
        exact ⟨op, left, right, info, rfl⟩
    · cases h
  | unary op operand info =>
    obtain ⟨hLine, h⟩ := Verdict.mem_diagnostics.mp h
    refine ⟨hLine, ?_⟩
    unfold Verdict.ofUnary at h
    split at h
    · split at h
      · cases h
      · rw [← Option.some.inj h]
        exact ⟨op, operand, info, rfl⟩
    · cases h
  | call callee arguments info =>
    obtain ⟨hLine, h⟩ := Verdict.mem_diagnostics.mp h
    refine ⟨hLine, ?_⟩
    rcases Verdict.ofCall_cases point.state.functions callee
      ((Expr.checkAll point.state arguments).1.map Expr.ty) with
      ⟨-, hVerdict⟩ | ⟨_, _, _, -, -, hVerdict⟩ | ⟨_, -, -, hVerdict⟩
    · rw [hVerdict] at h
      rw [← Option.some.inj h]
      exact ⟨arguments, info, rfl⟩
    · rw [hVerdict] at h
      rw [← Option.some.inj h]
      exact ⟨arguments, info, rfl⟩
    · rw [hVerdict] at h
      cases h

/-- What is reported about a function declaration itself. -/
theorem mem_fnReports {name : String} {parameters : List Parameter} {a : TypeName} {body : Block}
    {line : UInt32} {d : Diagnostic} :
    d ∈ fnReports point name parameters a body line ↔
      (∃ signature, point.state.functions.get? name = some signature ∧
        d = ⟨line, .functionAlreadyDefined name signature.line⟩) ∨
      (hasDuplicates (parameters.map (·.name)) ∧ d = ⟨line, .duplicateParameters⟩) ∨
      (point.inside? name parameters a line = none ∧ d = ⟨line, .nestedFunction name⟩) ∨
      ∃ inside returns violation, point.inside? name parameters a line = some inside ∧
        (inside.afterAll body.body).returns = some returns ∧
        Verdict.ofReturns returns = some violation ∧ d = ⟨line, violation⟩ := by
  have hEarlier : d ∈ ((point.state.functions.get? name).map fun signature =>
      (⟨line, .functionAlreadyDefined name signature.line⟩ : Diagnostic)).toList ↔
      ∃ signature, point.state.functions.get? name = some signature ∧
        d = ⟨line, .functionAlreadyDefined name signature.line⟩ := by
    simp only [Option.mem_toList, Option.map_eq_some_iff, @eq_comm _ d]
  have hRepeated : d ∈ (if hasDuplicates (parameters.map (·.name)) then
      [(⟨line, .duplicateParameters⟩ : Diagnostic)] else []) ↔
      hasDuplicates (parameters.map (·.name)) ∧ d = ⟨line, .duplicateParameters⟩ := by
    split <;> simp_all
  have hLast (after : Option Returns) :
      d ∈ (after.bind Verdict.ofReturns).toList.map (Diagnostic.mk line) ↔
        ∃ returns violation, after = some returns ∧ Verdict.ofReturns returns = some violation ∧
          d = ⟨line, violation⟩ := by
    simp only [List.mem_map, Option.mem_toList, Option.bind_eq_some_iff, @eq_comm _ d]
    constructor
    · rintro ⟨violation, ⟨returns, hAfter, hVerdict⟩, rfl⟩
      exact ⟨returns, violation, hAfter, hVerdict, rfl⟩
    · rintro ⟨returns, violation, hAfter, hVerdict, rfl⟩
      exact ⟨violation, ⟨returns, hAfter, hVerdict⟩, rfl⟩
  simp only [fnReports, List.mem_append, hEarlier, hRepeated, or_assoc]
  cases hInside : point.inside? name parameters a line with
  | none => simp
  | some inside =>
    rw [hLast]
    simp

theorem fnDecl_bears {name : String} {parameters : List Parameter} {a : TypeName} {body : Block}
    {line : UInt32} {d : Diagnostic}
    (h : d ∈ (stmt (.fnDecl name parameters a body line)).reports point) :
    d.line = line ∧ (stmt (.fnDecl name parameters a body line)).Bears d.violation := by
  rcases mem_fnReports.mp h with ⟨signature, -, rfl⟩ | ⟨-, rfl⟩ | ⟨-, rfl⟩ |
    ⟨inside, returns, violation, -, -, hLast, rfl⟩
  · exact ⟨rfl, parameters, a, body, line, rfl⟩
  · exact ⟨rfl, name, parameters, a, body, line, rfl⟩
  · exact ⟨rfl, parameters, a, body, line, rfl⟩
  · refine ⟨rfl, ?_⟩
    rcases Verdict.ofReturns_eq_some hLast with rfl | rfl <;>
      exact ⟨name, parameters, a, body, line, rfl⟩

theorem stmt_bears {s : Stmt} {d : Diagnostic} (h : d ∈ (stmt s).reports point) :
    d.line = s.line ∧ (stmt s).Bears d.violation := by
  cases s with
  | echo => cases h
  | varDecl name a value info =>
    simp only [reports] at h
    split at h
    · next violation hObstacle =>
      rw [List.mem_singleton.mp h]
      exact ⟨rfl, bears_of_obstacle (.inl ⟨a, value, info, rfl⟩) hObstacle⟩
    · obtain ⟨hLine, h⟩ := Verdict.mem_diagnostics.mp h
      obtain ⟨_, _, hViolation⟩ := Verdict.ofDeclaration_violation_eq_some h
      rw [hViolation]
      exact ⟨hLine, a, value, info, rfl⟩
  | constDecl name value info =>
    obtain ⟨violation, hObstacle, rfl⟩ := List.mem_map.mp h
    exact ⟨rfl, bears_of_obstacle (.inr ⟨value, info, rfl⟩) (Option.mem_toList.mp hObstacle)⟩
  | branch condition first second line =>
    obtain ⟨hLine, h⟩ := Verdict.mem_diagnostics.mp h
    refine ⟨hLine, ?_⟩
    unfold Verdict.ofCondition at h
    split at h
    · cases h
    · cases h
    · rw [← Option.some.inj h]
      exact .inl ⟨condition, first, second, line, rfl⟩
  | loop condition body line =>
    obtain ⟨hLine, h⟩ := Verdict.mem_diagnostics.mp h
    refine ⟨hLine, ?_⟩
    unfold Verdict.ofCondition at h
    split at h
    · cases h
    · cases h
    · rw [← Option.some.inj h]
      exact .inr ⟨condition, body, line, rfl⟩
  | assign target value info =>
    obtain ⟨hLine, h⟩ := Verdict.mem_diagnostics.mp h
    refine ⟨hLine, ?_⟩
    unfold Verdict.ofAssignment at h
    split at h
    · split at h
      · cases h
      · split at h
        · rw [← Option.some.inj h]
          exact ⟨target, value, info, rfl⟩
        · split at h
          · cases h
          · rw [← Option.some.inj h]
            exact ⟨target, value, info, rfl⟩
    · cases h
  | fnDecl => exact fnDecl_bears h
  | ret value info =>
    obtain ⟨hLine, h⟩ := Verdict.mem_diagnostics.mp h
    refine ⟨hLine, ?_⟩
    unfold Verdict.ofReturn at h
    split at h
    · rw [← Option.some.inj h]
      exact ⟨value, info, rfl⟩
    · cases h
    · split at h
      · cases h
      · split at h
        · cases h
        · rw [← Option.some.inj h]
          exact ⟨value, info, rfl⟩

/-- What is reported about a node is on its line and breaks a rule about nodes of its sort. -/
theorem bears_of_mem_reports {node : Node} {d : Diagnostic} (h : d ∈ node.reports point) :
    d.line = node.line ∧ node.Bears d.violation := by
  cases node with
  | stmt s => exact stmt_bears h
  | expr e => exact expr_bears h
  | location l =>
    obtain ⟨hLine, h⟩ := Verdict.mem_diagnostics.mp h
    refine ⟨hLine, ?_⟩
    unfold Verdict.ofLocation Scopes.lookup at h
    cases hFound : point.state.scopes.resolve? l.name with
    | some symbol =>
      rw [hFound] at h
      cases h
    | none =>
      rw [hFound] at h
      rw [← Option.some.inj h]
      exact ⟨l, rfl, rfl⟩
  | typeName a =>
    obtain ⟨hLine, h⟩ := Verdict.mem_diagnostics.mp h
    refine ⟨hLine, ?_⟩
    unfold Verdict.ofTypeName at h
    split at h
    · cases h
    · rw [← Option.some.inj h]
      exact ⟨a, rfl, rfl⟩
  | parameter => cases h

end Jingle.Syntax.Node

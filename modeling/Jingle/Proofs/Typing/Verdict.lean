import Jingle.Typing.Statement

/-!
# Laws of verdicts

The verdict on a node has a type exactly where the rule for the node gives one, and breaks a rule
only if the types of its parts are known.
-/

namespace Jingle.Typing

open Syntax

/-- The types of all parameters and of all arguments are known, and they differ. -/
def Signature.Refuses (signature : Signature) (arguments : List (Option Ty))
    (expected received : List Ty) : Prop :=
  signature.parameters = expected.map some ∧ arguments = received.map some ∧ expected ≠ received

namespace Verdict

@[simp] theorem diagnostics_eq_nil {verdict : Verdict} {line : UInt32} :
    verdict.diagnostics line = [] ↔ verdict.violation = none := by
  simp [diagnostics]

theorem mem_diagnostics {verdict : Verdict} {line : UInt32} {d : Diagnostic} :
    d ∈ verdict.diagnostics line ↔ d.line = line ∧ verdict.violation = some d.violation := by
  simp only [Verdict.diagnostics, List.mem_map, Option.mem_toList]
  constructor
  · rintro ⟨violation, hViolation, rfl⟩
    exact ⟨rfl, hViolation⟩
  · rintro ⟨rfl, hViolation⟩
    exact ⟨d.violation, hViolation, rfl⟩

@[simp] theorem ofTypeName_ty (name : String) : (ofTypeName name).ty = Ty.ofName? name := by
  unfold ofTypeName
  cases Ty.ofName? name <;> rfl

theorem ofTypeName_violation_eq_none {name : String} :
    (ofTypeName name).violation = none ↔ ∃ ty, Ty.ofName? name = some ty := by
  unfold ofTypeName
  cases Ty.ofName? name <;> simp [typed, broken]

/-- An operation with two operands has a type exactly if both operands have one and the operation is
defined on them. -/
theorem ofBinary_ty (op : BinaryOp) (left right : Option Ty) :
    (ofBinary op left right).ty = left.bind fun l => right.bind fun r => Ty.binary? op l r := by
  cases left with
  | none => rfl
  | some l =>
    cases right with
    | none => rfl
    | some r =>
      simp only [ofBinary, Option.bind_some]
      cases Ty.binary? op l r <;> rfl

theorem ofBinary_violation_eq_none {op : BinaryOp} {left right : Ty} :
    (ofBinary op (some left) (some right)).violation = none ↔
      ∃ ty, Ty.binary? op left right = some ty := by
  simp only [ofBinary]
  cases Ty.binary? op left right <;> simp [typed, broken]

/-- An operation with one operand has a type exactly if the operand has one and the operation is
defined on it. -/
theorem ofUnary_ty (op : UnaryOp) (operand : Option Ty) :
    (ofUnary op operand).ty = operand.bind (Ty.unary? op) := by
  cases operand with
  | none => rfl
  | some ty =>
    simp only [ofUnary, Option.bind_some]
    cases Ty.unary? op ty <;> rfl

theorem ofUnary_violation_eq_none {op : UnaryOp} {operand : Ty} :
    (ofUnary op (some operand)).violation = none ↔ ∃ ty, Ty.unary? op operand = some ty := by
  simp only [ofUnary]
  cases Ty.unary? op operand <;> simp [typed, broken]

theorem ofLocation_ty (scopes : Scopes) (name : String) :
    (ofLocation scopes name).ty = (scopes.resolve? name).bind (·.ty) := by
  simp only [ofLocation, Scopes.lookup]
  cases scopes.resolve? name <;> rfl

/-- A declared variable has the declared type, and so has its initial value. -/
theorem ofDeclaration_ty_eq_some {name : String} {declared : Option Ty}
    {assigned : Option (Option Ty)} {ty : Ty} :
    (ofDeclaration name declared assigned).ty = some ty ↔
      declared = some ty ∧ ∀ a ∈ assigned, a = some ty := by
  unfold ofDeclaration
  split
  · simp [absent]
  · simp [typed]
  · simp [absent]
  · next declared assigned =>
    split
    · next hEq => simp [typed, hEq]
    · next hNe =>
      simp only [broken, reduceCtorEq, false_iff, not_and, Option.some.injEq]
      rintro rfl hAssigned
      exact hNe (Option.some.inj (hAssigned _ rfl))

theorem ofDeclaration_violation_eq_none {name : String} {declared : Option Ty}
    {assigned : Option (Option Ty)} {ty : Ty}
    (h : (ofDeclaration name declared assigned).ty = some ty) :
    (ofDeclaration name declared assigned).violation = none := by
  obtain ⟨rfl, hAssigned⟩ := ofDeclaration_ty_eq_some.mp h
  cases assigned with
  | none => rfl
  | some a =>
    obtain rfl := hAssigned a rfl
    simp [ofDeclaration, typed]

theorem ofDeclaration_violation_eq_some {name : String} {declared : Option Ty}
    {assigned : Option (Option Ty)} {violation : Violation}
    (h : (ofDeclaration name declared assigned).violation = some violation) :
    ∃ expected found, violation = .declarationMismatch name expected found := by
  unfold ofDeclaration at h
  split at h
  · cases h
  · cases h
  · cases h
  · split at h
    · cases h
    · exact ⟨_, _, (Option.some.inj h).symm⟩

/-- An assignment with a type gives a value of that type to a name of that type. -/
theorem ofAssignment_ty_eq_some {scopes : Scopes} {name : String} {value : Option Ty} {ty : Ty}
    (h : (ofAssignment scopes name value).ty = some ty) :
    (scopes.resolve? name).bind (·.ty) = some ty ∧ value = some ty := by
  unfold ofAssignment at h
  split at h
  · next symbol value hSymbol =>
    split at h
    · cases h
    · next location hLocation =>
      split at h
      · cases h
      · split at h
        · next hEq =>
          cases h
          simp [hSymbol, hLocation, hEq]
        · cases h
  · cases h

/-- A return statement has the type of its value or none. -/
theorem eq_some_of_ofReturn {returns : Option Returns} {value : Option Ty} {ty : Ty}
    (h : (ofReturn returns value).ty = some ty) : value = some ty := by
  unfold ofReturn at h
  split at h
  · cases h
  · cases h
  · split at h
    · exact h
    · split at h
      · exact h
      · cases h

/-- A condition with a type is refused exactly if it is not a truth value. -/
theorem ofCondition_violation_eq_none {ty : Ty} :
    (ofCondition (some ty)).violation = none ↔ ty = .bool := by
  cases ty <;> simp [ofCondition, typed, broken]

theorem ofCondition_ty_isSome {condition : Option Ty} :
    (ofCondition condition).ty.isSome ↔ condition = some .bool := by
  cases condition with
  | none => simp [ofCondition, absent]
  | some ty => cases ty <;> simp [ofCondition, typed, broken]

/-- A function is reported for its returns as a whole in one of two ways. -/
theorem ofReturns_eq_some {returns : Returns} {violation : Violation}
    (h : ofReturns returns = some violation) :
    violation = .missingReturn returns.name ∨ violation = .tooManyReturnTypes returns.name := by
  unfold ofReturns at h
  split at h
  · exact .inl (Option.some.inj h).symm
  · split at h
    · cases h
    · split at h
      · exact .inr (Option.some.inj h).symm
      · cases h

@[simp] theorem allTypes?_map_some (types : List Ty) : allTypes? (types.map some) = some types := by
  unfold allTypes?
  induction types with
  | nil => rfl
  | cons ty types ih => rw [List.map_cons, List.mapM_cons, ih]; rfl

theorem allTypes?_eq_some_iff {types : List (Option Ty)} {known : List Ty} :
    allTypes? types = some known ↔ types = known.map some := by
  constructor
  · intro h
    unfold allTypes? at h
    induction types generalizing known with
    | nil => cases h; rfl
    | cons ty types ih =>
      rw [List.mapM_cons] at h
      obtain ⟨first, hFirst, h⟩ := Option.bind_eq_some_iff.mp h
      obtain ⟨others, hOthers, h⟩ := Option.bind_eq_some_iff.mp h
      cases h
      have hTy : ty = some first := hFirst
      rw [ih hOthers, hTy, List.map_cons]
  · rintro rfl
    exact allTypes?_map_some known

/-- A call breaks a rule if its function is unknown or takes other arguments. Otherwise it has the
type that the function returns, also if the arguments cannot be compared. -/
theorem ofCall_cases (functions : Functions) (callee : String) (arguments : List (Option Ty)) :
    (functions.get? callee = none ∧
        ofCall functions callee arguments = broken (.functionNotDeclared callee)) ∨
      (∃ signature expected received, functions.get? callee = some signature ∧
        signature.Refuses arguments expected received ∧ ofCall functions callee arguments =
          broken (.argumentMismatch callee (Ty.tuple expected) (Ty.tuple received))) ∨
      ∃ signature, functions.get? callee = some signature ∧
        (∀ expected received, ¬ signature.Refuses arguments expected received) ∧
        ofCall functions callee arguments = ⟨signature.returns, none⟩ := by
  unfold ofCall
  cases hKnown : functions.get? callee with
  | none => exact .inl ⟨rfl, rfl⟩
  | some signature =>
    right
    by_cases hRefuses : ∃ expected received, signature.Refuses arguments expected received
    · left
      obtain ⟨expected, received, h⟩ := hRefuses
      refine ⟨signature, expected, received, rfl, h, ?_⟩
      obtain ⟨hExpected, hReceived, hNe⟩ := h
      simp only [hExpected, hReceived, allTypes?_map_some, if_neg hNe]
    · right
      have hAccepts : ∀ expected received, ¬ signature.Refuses arguments expected received :=
        fun expected received h => hRefuses ⟨expected, received, h⟩
      refine ⟨signature, rfl, hAccepts, ?_⟩
      dsimp only
      split
      · next expected received hExpected hReceived =>
        by_cases hEq : expected = received
        · exact if_pos hEq
        · exact absurd ⟨allTypes?_eq_some_iff.mp hExpected, allTypes?_eq_some_iff.mp hReceived, hEq⟩
            (hAccepts expected received)
      · rfl

/-- A call has no type if its function is unknown, refuses the arguments, or is not known to return
anything. An argument without a type alone does not make it so. -/
theorem ofCall_ty_eq_none_iff (functions : Functions) (callee : String)
    (arguments : List (Option Ty)) :
    (ofCall functions callee arguments).ty = none ↔
      functions.get? callee = none ∨
        ∃ signature, functions.get? callee = some signature ∧
          ((∃ expected received, signature.Refuses arguments expected received) ∨
            signature.returns = none) := by
  rcases ofCall_cases functions callee arguments with
    ⟨hNone, hVerdict⟩ | ⟨signature, expected, received, hSome, hRefuses, hVerdict⟩ |
      ⟨signature, hSome, hAccepts, hVerdict⟩
  · rw [hVerdict]
    exact iff_of_true rfl (.inl hNone)
  · rw [hVerdict]
    exact iff_of_true rfl (.inr ⟨signature, hSome, .inl ⟨expected, received, hRefuses⟩⟩)
  · rw [hVerdict]
    constructor
    · intro hReturns
      exact .inr ⟨signature, hSome, .inr hReturns⟩
    · rintro (hNone | ⟨signature', hSome', ⟨expected, received, hRefuses⟩ | hReturns⟩)
      · cases hNone.symm.trans hSome
      · obtain rfl := Option.some.inj (hSome.symm.trans hSome')
        exact absurd hRefuses (hAccepts expected received)
      · obtain rfl := Option.some.inj (hSome.symm.trans hSome')
        exact hReturns

end Verdict

end Jingle.Typing

import Jingle.Proofs.Typing.Rules
import Jingle.Proofs.Typing.Scope
import Jingle.Proofs.Typing.Verdict

/-!
# States of the checker and contexts of the rules

As long as nothing has been reported, every symbol and every signature that the checker knows has
all its types, and the state says the same as a context of the rules. In such a state an expression
is checked without a diagnostic exactly if it has a type.

* `Models Γ state returns` says that a state and the returns of the function around it agree with a
  context.
* `Expr.check_sound` and `Expr.check_complete` compare the checker with `HasType`.
-/

namespace Jingle.Typing

open Syntax

/-! ## Agreement -/

/-- A symbol with a type agrees with a binding. -/
def Symbol.Models (symbol : Symbol) (binding : Binding) : Prop :=
  symbol.ty = some binding.ty ∧ symbol.isConstant = !binding.writable

/-- A scope and a layer have the same names, with symbols and bindings that agree. -/
def Scope.Models (scope : Scope) (layer : Layer) : Prop :=
  ∀ name, Option.Rel Symbol.Models (scope.get? name) (layer name)

/-- A signature with all its types agrees with the type of a function. -/
def Signature.Models (signature : Signature) (type : FnType) : Prop :=
  signature.parameters = type.parameters.map some ∧ signature.returns = some type.returns

/-- The function around a place is known by its names and by its returns, none of which has a type
other than the expected one. -/
inductive FnScope.Models : Option FnScope → Option Scope → Option Returns → Prop where
  | outside : FnScope.Models none none none
  | inside {fn : FnScope} {scope : Scope} {returns : Returns} :
      scope.Models fn.names → returns.expected = some fn.returns →
      (∀ ty ∈ returns.observed, ty = fn.returns) →
      FnScope.Models (some fn) (some scope) (some returns)

/-- What the checker knows agrees with what the rules know. -/
structure Models (Γ : Context) (state : State) (returns : Option Returns) : Prop where
  globals : state.scopes.globals.Models Γ.globals
  functions : ∀ name, Option.Rel Signature.Models (state.functions.get? name) (Γ.functions name)
  function : FnScope.Models Γ.function? state.scopes.function? returns

theorem Models.initial : Models .empty .initial none where
  globals _ := .none
  functions _ := .none
  function := .outside

theorem Scope.Models.insert {scope : Scope} {layer : Layer} {symbol : Symbol} {binding : Binding}
    (hScope : scope.Models layer) (hSymbol : symbol.Models binding) :
    (scope.insert symbol).Models (Function.update layer symbol.name (some binding)) := by
  intro name
  rw [Scope.get?_insert]
  by_cases hName : symbol.name = name
  · subst hName
    simpa using Option.Rel.some hSymbol
  · rw [if_neg hName, Function.update_of_ne (Ne.symm hName)]
    exact hScope name

theorem optionRel_eq_none_iff {α β : Type} {r : α → β → Prop} {a : Option α} {b : Option β}
    (h : Option.Rel r a b) : a = none ↔ b = none := by
  cases h <;> simp

section

variable {Γ : Context} {state : State} {returns : Option Returns}

/-- A name resolves to a symbol exactly if it is visible, and then they agree. -/
theorem Models.resolve? (hM : Models Γ state returns) (name : String) :
    Option.Rel Symbol.Models (state.scopes.resolve? name) (Γ.visible name) := by
  obtain ⟨hGlobals, -, hFunction⟩ := hM
  have hGlobal := hGlobals name
  unfold Scopes.resolve? Context.visible
  generalize Γ.function? = fn? at hFunction
  generalize state.scopes.function? = scope? at hFunction
  cases hFunction with
  | outside => simpa using hGlobal
  | @inside fn scope returns hScope _ _ =>
    have hLocal := hScope name
    simp only [Option.bind_some]
    generalize scope.get? name = found at hLocal
    generalize fn.names name = binding at hLocal
    cases hLocal with
    | none => simpa using hGlobal
    | some hSymbol => simpa using Option.Rel.some hSymbol

theorem Models.resolve?_eq_none_iff (hM : Models Γ state returns) {name : String} :
    state.scopes.resolve? name = none ↔ Γ.visible name = none :=
  optionRel_eq_none_iff (hM.resolve? name)

theorem Models.get?_eq_none_iff (hM : Models Γ state returns) {name : String} :
    state.functions.get? name = none ↔ Γ.functions name = none :=
  optionRel_eq_none_iff (hM.functions name)

/-- Nothing stands against the declarations that the rules allow. -/
theorem Models.obstacle?_eq_none_iff (hM : Models Γ state returns) {name : String} :
    state.scopes.obstacle? name = none ↔ Γ.Declarable name := by
  rw [Scopes.obstacle?_eq_none_iff, hM.resolve?_eq_none_iff]
  rfl

/-- A declaration in the state agrees with the declaration in the context. -/
theorem Models.insert (hM : Models Γ state returns) (symbol : Symbol) (binding : Binding)
    (hSymbol : symbol.Models binding) :
    Models (Γ.declare symbol.name binding)
      { state with scopes := state.scopes.insert symbol } returns := by
  obtain ⟨hGlobals, hFunctions, hFunction⟩ := hM
  unfold Context.declare Scopes.insert
  cases hFn : Γ.function? with
  | none =>
    rw [hFn] at hFunction
    cases hScope : state.scopes.function? with
    | none =>
      rw [hScope] at hFunction
      exact ⟨hGlobals.insert hSymbol, hFunctions, by simpa [hFn, hScope] using hFunction⟩
    | some scope => rw [hScope] at hFunction; cases hFunction
  | some fn =>
    rw [hFn] at hFunction
    cases hScope : state.scopes.function? with
    | none => rw [hScope] at hFunction; cases hFunction
    | some scope =>
      rw [hScope] at hFunction
      cases hFunction with
      | inside hNames hExpected hObserved =>
        exact ⟨hGlobals, hFunctions, .inside (hNames.insert hSymbol) hExpected hObserved⟩

/-! ## Verdicts in a state that agrees with a context -/

/-- A name that is read or written raises no violation exactly if it is visible, and then has the
type of its binding. -/
theorem Models.ofLocation (hM : Models Γ state returns) (name : String) :
    (∃ binding, Γ.visible name = some binding ∧
        Verdict.ofLocation state.scopes name = .typed binding.ty) ∨
      (Γ.visible name = none ∧ (Verdict.ofLocation state.scopes name).violation ≠ none) := by
  have hRel := hM.resolve? name
  unfold Verdict.ofLocation Scopes.lookup
  generalize state.scopes.resolve? name = found at hRel
  generalize Γ.visible name = visible at hRel
  cases hRel with
  | none => exact Or.inr ⟨rfl, by simp [Verdict.broken]⟩
  | some hSymbol => exact Or.inl ⟨_, rfl, by simp [Verdict.typed, hSymbol.1]⟩

/-- A call with typed arguments raises no violation exactly if it calls a function that takes
arguments of these types. -/
theorem Models.ofCall (hM : Models Γ state returns) (callee : String) (arguments : List Ty) :
    (∃ type, Γ.functions callee = some type ∧ type.parameters = arguments ∧
        Verdict.ofCall state.functions callee (arguments.map some) = .typed type.returns) ∨
      ((∀ type, Γ.functions callee = some type → type.parameters ≠ arguments) ∧
        (Verdict.ofCall state.functions callee (arguments.map some)).violation ≠ none) := by
  have hRel := hM.functions callee
  unfold Verdict.ofCall
  generalize state.functions.get? callee = found at hRel
  generalize Γ.functions callee = known at hRel
  cases hRel with
  | none => exact Or.inr ⟨by simp, by simp [Verdict.broken]⟩
  | @some signature type hSignature =>
    obtain ⟨hParameters, hReturns⟩ := hSignature
    simp only [hParameters, hReturns, Verdict.allTypes?_map_some]
    by_cases hEq : type.parameters = arguments
    · exact Or.inl ⟨type, rfl, hEq, by simp [hEq, Verdict.typed]⟩
    · exact Or.inr ⟨by simpa using hEq, by simp [hEq, Verdict.broken]⟩

end

end Jingle.Typing

namespace Jingle.Syntax

open Typing

variable {Γ : Context} {state : State} {returns : Option Returns}

/-! ## Expressions -/

theorem Expr.literal_hasType (value : Literal) (info : Info) :
    HasType Γ (.literal value info) value.ty := by
  cases value with
  | integer => exact .integer
  | float => exact .float
  | char => exact .char
  | string => exact .string
  | bool => exact .bool

mutual

/-- An expression that is checked without a diagnostic has the type that is found for it. -/
theorem Expr.check_sound (hM : Models Γ state returns) :
    ∀ e : Expr, (e.check state).2 = [] →
      ∃ ty, (e.check state).1.ty = some ty ∧ HasType Γ e ty
  | .literal value info, _ => ⟨value.ty, rfl, literal_hasType value info⟩
  | .binary op left right info, hNil => by
    simp only [check, List.append_eq_nil_iff, Verdict.diagnostics_eq_nil] at hNil
    obtain ⟨⟨hLeftNil, hRightNil⟩, hVerdict⟩ := hNil
    obtain ⟨leftTy, hLeftTy, hLeft⟩ := check_sound hM left hLeftNil
    obtain ⟨rightTy, hRightTy, hRight⟩ := check_sound hM right hRightNil
    rw [hLeftTy, hRightTy] at hVerdict
    obtain ⟨ty, hTy⟩ := Verdict.ofBinary_violation_eq_none.mp hVerdict
    refine ⟨ty, ?_, .binary hLeft hRight hTy⟩
    change (Verdict.ofBinary op (left.check state).1.ty (right.check state).1.ty).ty = some ty
    rw [Verdict.ofBinary_ty, hLeftTy, hRightTy, Option.bind_some, Option.bind_some, hTy]
  | .unary op operand info, hNil => by
    simp only [check, List.append_eq_nil_iff, Verdict.diagnostics_eq_nil] at hNil
    obtain ⟨hOperandNil, hVerdict⟩ := hNil
    obtain ⟨operandTy, hOperandTy, hOperand⟩ := check_sound hM operand hOperandNil
    rw [hOperandTy] at hVerdict
    obtain ⟨ty, hTy⟩ := Verdict.ofUnary_violation_eq_none.mp hVerdict
    refine ⟨ty, ?_, .unary hOperand hTy⟩
    change (Verdict.ofUnary op (operand.check state).1.ty).ty = some ty
    rw [Verdict.ofUnary_ty, hOperandTy, Option.bind_some, hTy]
  | .symbol location info, hNil => by
    simp only [check, Location.check, Verdict.diagnostics_eq_nil] at hNil
    rcases hM.ofLocation location.name with ⟨binding, hVisible, hVerdict⟩ | ⟨-, hBroken⟩
    · refine ⟨binding.ty, ?_, .symbol hVisible⟩
      simp [check, Location.check, Expr.ty, Expr.info, hVerdict, Verdict.typed]
    · exact absurd hNil hBroken
  | .call callee arguments info, hNil => by
    simp only [check, List.append_eq_nil_iff, Verdict.diagnostics_eq_nil] at hNil
    obtain ⟨hArgumentsNil, hVerdict⟩ := hNil
    obtain ⟨types, hTypes, hArguments⟩ := checkAll_sound hM arguments hArgumentsNil
    rw [hTypes] at hVerdict
    rcases hM.ofCall callee types with ⟨type, hType, rfl, hTyped⟩ | ⟨-, hBroken⟩
    · refine ⟨type.returns, ?_, .call hType hArguments⟩
      change (Verdict.ofCall state.functions callee
        ((Expr.checkAll state arguments).1.map Expr.ty)).ty = some type.returns
      rw [hTypes, hTyped]
      rfl
    · exact absurd hVerdict hBroken

/-- Expressions that are checked without a diagnostic have the types that are found for them. -/
theorem Expr.checkAll_sound (hM : Models Γ state returns) :
    ∀ exprs : List Expr, (Expr.checkAll state exprs).2 = [] →
      ∃ types, (Expr.checkAll state exprs).1.map Expr.ty = types.map some ∧
        List.Forall₂ (HasType Γ) exprs types
  | [], _ => ⟨[], rfl, .nil⟩
  | e :: exprs, hNil => by
    simp only [checkAll, List.append_eq_nil_iff] at hNil
    obtain ⟨ty, hTy, hHead⟩ := check_sound hM e hNil.1
    obtain ⟨types, hTypes, hTail⟩ := checkAll_sound hM exprs hNil.2
    exact ⟨ty :: types, by simp [checkAll, hTy, hTypes], .cons hHead hTail⟩

end

mutual

/-- An expression with a type is checked without a diagnostic, and its type is found. -/
theorem Expr.check_complete (hM : Models Γ state returns) :
    ∀ {e : Expr} {ty : Ty}, HasType Γ e ty →
      (e.check state).2 = [] ∧ (e.check state).1.ty = some ty
  | .literal _ _, _, hType => by cases hType <;> exact ⟨rfl, rfl⟩
  | .binary op left right info, ty, .binary hLeft hRight hTy => by
    obtain ⟨hLeftNil, hLeftTy⟩ := check_complete hM hLeft
    obtain ⟨hRightNil, hRightTy⟩ := check_complete hM hRight
    have hVerdict := Verdict.ofBinary_violation_eq_none.mpr ⟨ty, hTy⟩
    simp only [check, hLeftNil, hRightNil, hLeftTy, hRightTy]
    exact ⟨by simpa using hVerdict, by simp [Expr.ty, Expr.info, Verdict.ofBinary_ty, hTy]⟩
  | .unary op operand info, ty, .unary hOperand hTy => by
    obtain ⟨hOperandNil, hOperandTy⟩ := check_complete hM hOperand
    have hVerdict := Verdict.ofUnary_violation_eq_none.mpr ⟨ty, hTy⟩
    simp only [check, hOperandNil, hOperandTy]
    exact ⟨by simpa using hVerdict, by simp [Expr.ty, Expr.info, Verdict.ofUnary_ty, hTy]⟩
  | .symbol location info, _, .symbol hVisible => by
    rcases hM.ofLocation location.name with ⟨binding, hFound, hVerdict⟩ | ⟨hNone, -⟩
    · rw [hVisible, Option.some.injEq] at hFound
      subst hFound
      simp [check, Location.check, hVerdict, Verdict.typed, Expr.ty, Expr.info]
    · rw [hVisible] at hNone
      cases hNone
  | .call callee arguments info, _, @HasType.call _ _ _ _ type hType hArguments => by
    obtain ⟨hArgumentsNil, hTypes⟩ := checkAll_complete hM hArguments
    rcases hM.ofCall callee type.parameters with ⟨found, hFound, -, hTyped⟩ | ⟨hNone, -⟩
    · rw [hType, Option.some.injEq] at hFound
      subst hFound
      simp only [check, hArgumentsNil, hTypes, hTyped]
      exact ⟨rfl, rfl⟩
    · exact absurd rfl (hNone type hType)

/-- Expressions with types are checked without a diagnostic, and their types are found. -/
theorem Expr.checkAll_complete (hM : Models Γ state returns) :
    ∀ {exprs : List Expr} {types : List Ty}, List.Forall₂ (HasType Γ) exprs types →
      (Expr.checkAll state exprs).2 = [] ∧
        (Expr.checkAll state exprs).1.map Expr.ty = types.map some
  | [], _, .nil => ⟨rfl, rfl⟩
  | e :: exprs, _, .cons hHead hTail => by
    obtain ⟨hHeadNil, hHeadTy⟩ := check_complete hM hHead
    obtain ⟨hTailNil, hTailTypes⟩ := checkAll_complete hM hTail
    simp [checkAll, hHeadNil, hHeadTy, hTailNil, hTailTypes]

end

end Jingle.Syntax

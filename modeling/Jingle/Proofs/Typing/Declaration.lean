import Jingle.Proofs.Typing.Scope
import Jingle.Proofs.Typing.Verdict

/-!
# Outcomes of declarations

A declaration that meets no obstacle at its beginning meets none at its end either, so that its
outcome follows from its verdict alone.

* `Stmt.checkVar_of_free` and `Stmt.checkConst_of_free` give the outcomes where the name is free.
* `Stmt.checkVar_of_taken` and `Stmt.checkConst_of_taken` give them where it is not.
* `State.Declares` says all that a declaration of a name can do to what is known.
* `Stmt.enterFn_eq` gives what is known inside of a function.
-/

namespace Jingle.Typing

/-- What a declaration of a name does to what is known: nothing, or it adds a symbol of that name,
which was free, to the innermost layer. -/
inductive State.Declares (name : String) (state : State) : State → Prop
  | refused : state.Declares name state
  | inserted (symbol : Symbol) (hName : symbol.name = name)
    (hFree : state.scopes.obstacle? name = none) :
    state.Declares name { state with scopes := state.scopes.insert symbol }

namespace Functions

/-- The functions with one more, unless its name is taken. -/
def register (functions : Functions) (signature : Signature) : Functions :=
  match functions.get? signature.name with
  | some _ => functions
  | none => functions.insert signature

theorem get?_register (functions : Functions) (signature : Signature) (name : String) :
    (functions.register signature).get? name =
      if signature.name = name then some ((functions.get? name).getD signature)
      else functions.get? name := by
  unfold register
  by_cases hName : signature.name = name
  · subst hName
    cases hKnown : functions.get? signature.name with
    | some known => simp [hKnown]
    | none => simp [get?_insert]
  · cases functions.get? signature.name with
    | some known => rw [if_neg hName]
    | none => rw [get?_insert, if_neg hName, if_neg hName]

end Functions

end Jingle.Typing

namespace Jingle.Syntax

open Typing

@[simp] theorem TypeName.check_ty (typeName : TypeName) :
    typeName.check.1.ty = Ty.ofName? typeName.name := by
  simp [TypeName.check]

namespace Parameter

theorem checkAll_fst (parameters : List Parameter) :
    (checkAll parameters).1 = parameters.map (·.check.1) := by
  induction parameters with
  | nil => rfl
  | cons parameter parameters ih => simp [checkAll, ih]

@[simp] theorem check_ty (parameter : Parameter) :
    parameter.check.1.ty = Ty.ofName? parameter.typeName.name := by
  simp [check]

@[simp] theorem check_name (parameter : Parameter) : parameter.check.1.name = parameter.name := rfl

theorem checkAll_map_name (parameters : List Parameter) :
    (checkAll parameters).1.map (·.name) = parameters.map (·.name) := by
  simp [checkAll_fst, Function.comp_def]

end Parameter

namespace Stmt

variable {state : State} {name : String}

theorem checkVar_of_taken (typeName : TypeName) (value : Option Expr) (info : Info)
    {violation : Violation} (hObstacle : state.scopes.obstacle? name = some violation) :
    checkVar state name typeName value info =
      (.varDecl name typeName value { info with ty := none }, state,
        [⟨info.line, violation⟩]) := by
  simp only [checkVar, hObstacle]

/-- The outcome of the declaration of a variable with a free name. -/
theorem checkVar_of_free (typeName : TypeName) (value : Option Expr) (info : Info)
    (hObstacle : state.scopes.obstacle? name = none) :
    checkVar state name typeName value info =
      let checked := Expr.checkOption state value
      let verdict := Verdict.ofDeclaration name (Ty.ofName? typeName.name)
        (checked.1.map Expr.ty)
      (.varDecl name typeName.check.1 checked.1 { info with ty := verdict.ty },
        match verdict.ty with
        | none => state
        | some ty =>
          { state with scopes := state.scopes.insert ⟨name, .var, some ty, info.line⟩ },
        typeName.check.2 ++ checked.2 ++ verdict.diagnostics info.line) := by
  unfold checkVar
  simp only [hObstacle, TypeName.check_ty]
  cases hTy : (Verdict.ofDeclaration name (Ty.ofName? typeName.name)
      ((Expr.checkOption state value).1.map Expr.ty)).ty with
  | none => rfl
  | some ty =>
    have hNone := Verdict.ofDeclaration_violation_eq_none hTy
    simp [State.declare_eq, hObstacle, Verdict.diagnostics, hNone]

theorem checkConst_of_taken (value : Expr) (info : Info) {violation : Violation}
    (hObstacle : state.scopes.obstacle? name = some violation) :
    checkConst state name value info =
      (.constDecl name value { info with ty := none }, state, [⟨info.line, violation⟩]) := by
  simp only [checkConst, hObstacle]

/-- The outcome of the declaration of a constant with a free name. -/
theorem checkConst_of_free (value : Expr) (info : Info)
    (hObstacle : state.scopes.obstacle? name = none) :
    checkConst state name value info =
      let checked := value.check state
      (.constDecl name checked.1 { info with ty := checked.1.ty },
        { state with scopes := state.scopes.insert ⟨name, .const, checked.1.ty, info.line⟩ },
        checked.2) := by
  unfold checkConst
  simp only [hObstacle, State.declare_eq]

theorem checkVar_declares (state : State) (name : String) (typeName : TypeName)
    (value : Option Expr) (info : Info) :
    state.Declares name (checkVar state name typeName value info).2.1 := by
  cases hObstacle : state.scopes.obstacle? name with
  | some violation =>
    rw [checkVar_of_taken typeName value info hObstacle]
    exact .refused
  | none =>
    rw [checkVar_of_free typeName value info hObstacle]
    dsimp only
    split
    · exact .refused
    · exact .inserted _ rfl hObstacle

theorem checkConst_declares (state : State) (name : String) (value : Expr) (info : Info) :
    state.Declares name (checkConst state name value info).2.1 := by
  cases hObstacle : state.scopes.obstacle? name with
  | some violation =>
    rw [checkConst_of_taken value info hObstacle]
    exact .refused
  | none =>
    rw [checkConst_of_free value info hObstacle]
    exact .inserted _ rfl hObstacle

/-- A function is entered only outside of functions. -/
theorem enterFn_eq (state : State) (name : String) (parameters : List Parameter)
    (returns : Option Ty) (line : UInt32) :
    enterFn state name parameters returns line =
      if state.scopes.inFunction then .error (.nestedFunction name)
      else .ok ⟨⟨state.scopes.globals, some (.ofSymbols (parameters.map Parameter.symbol))⟩,
        state.functions.register ⟨name, line, parameters.map (·.ty), returns⟩⟩ := by
  unfold enterFn Scopes.enter Functions.register
  by_cases hInside : state.scopes.inFunction
  · rw [if_pos hInside, if_pos hInside]
    rfl
  · rw [if_neg hInside, if_neg hInside]
    cases state.functions.get? name <;> rfl

end Stmt

end Jingle.Syntax

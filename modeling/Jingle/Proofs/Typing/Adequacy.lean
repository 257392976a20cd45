import Jingle.Proofs.Typing.Declaration
import Jingle.Proofs.Typing.Models

/-!
# The checker decides the rules

A program is checked without a diagnostic exactly if it is well typed. Each statement is compared
with its rule in a state that agrees with a context. The rule leads to a context that agrees with
the state after the statement, so that the comparison carries on to the statements after it.

* `Stmt.check_complete` says that a well-typed statement is checked without a diagnostic.
* `Stmt.check_sound` says that a statement that is checked without a diagnostic is well typed.
* `Block.check_silent_iff_wellTyped` is the comparison for programs.
-/

namespace Jingle.Typing

open Syntax

/-- Inside of a function only its own names change. -/
theorem Context.declare_inside {Γ : Context} {fn : FnScope} (hFn : Γ.function? = some fn)
    (name : String) (binding : Binding) :
    (Γ.declare name binding).globals = Γ.globals ∧
      (Γ.declare name binding).functions = Γ.functions ∧
      ∃ fn', (Γ.declare name binding).function? = some fn' := by
  simp [Context.declare, hFn]

mutual

theorem WellTyped.inside {Γ Γ' : Context} {stmt : Stmt} {fn : FnScope} :
    WellTyped Γ stmt Γ' → Γ.function? = some fn →
      Γ'.globals = Γ.globals ∧ Γ'.functions = Γ.functions ∧ ∃ fn', Γ'.function? = some fn'
  | .varDecl .., hFn => Context.declare_inside hFn _ _
  | .constDecl .., hFn => Context.declare_inside hFn _ _
  | .echo _, hFn => ⟨rfl, rfl, fn, hFn⟩
  | .branch _ hThen hElse, hFn => by
    obtain ⟨hGlobals, hFunctions, fn', hFn'⟩ := hThen.inside hFn
    obtain ⟨hGlobals', hFunctions', hInside⟩ := hElse.inside hFn'
    exact ⟨hGlobals'.trans hGlobals, hFunctions'.trans hFunctions, hInside⟩
  | .loop _ hBody, hFn => hBody.inside hFn
  | .assign .., hFn => ⟨rfl, rfl, fn, hFn⟩
  | .fnDecl hOutside _ _ _ _ _ _, hFn => by
    rw [hOutside] at hFn
    cases hFn
  | .ret .., hFn => ⟨rfl, rfl, fn, hFn⟩

/-- The statements of a function change neither the global names nor the functions. -/
theorem AllWellTyped.inside {Γ Γ' : Context} {stmts : List Stmt} {fn : FnScope} :
    AllWellTyped Γ stmts Γ' → Γ.function? = some fn →
      Γ'.globals = Γ.globals ∧ Γ'.functions = Γ.functions ∧ ∃ fn', Γ'.function? = some fn'
  | .nil, hFn => ⟨rfl, rfl, fn, hFn⟩
  | .cons hHead hTail, hFn => by
    obtain ⟨hGlobals, hFunctions, fn', hFn'⟩ := hHead.inside hFn
    obtain ⟨hGlobals', hFunctions', hInside⟩ := hTail.inside hFn'
    exact ⟨hGlobals'.trans hGlobals, hFunctions'.trans hFunctions, hInside⟩

end

theorem hasDuplicates_eq_false_iff {names : List String} :
    hasDuplicates names = false ↔ names.Nodup := by
  induction names with
  | nil => simp [hasDuplicates]
  | cons name names ih => simp [hasDuplicates, ih]

end Jingle.Typing

namespace Jingle.Syntax

open Typing

/-! ## Parameters -/

theorem TypeName.check_eq_nil_iff {typeName : TypeName} :
    typeName.check.2 = [] ↔ ∃ ty, Denotes typeName ty := by
  simp only [TypeName.check, Verdict.diagnostics_eq_nil, Verdict.ofTypeName_violation_eq_none]
  rfl

namespace Parameter

/-- Parameters are checked without a diagnostic exactly if all of them have types. -/
theorem checkAll_eq_nil_iff {parameters : List Parameter} :
    (checkAll parameters).2 = [] ↔
      ∃ types, List.Forall₂ (fun parameter => Denotes parameter.typeName) parameters types := by
  induction parameters with
  | nil => exact ⟨fun _ => ⟨[], .nil⟩, fun _ => rfl⟩
  | cons parameter parameters ih =>
    have hHead : parameter.check.2 = [] ↔ ∃ ty, Denotes parameter.typeName ty :=
      TypeName.check_eq_nil_iff
    simp only [checkAll, List.append_eq_nil_iff, ih, hHead]
    constructor
    · rintro ⟨⟨ty, hTy⟩, types, hTypes⟩
      exact ⟨ty :: types, .cons hTy hTypes⟩
    · rintro ⟨_, hAll⟩
      cases hAll with
      | cons hTy hTypes => exact ⟨⟨_, hTy⟩, _, hTypes⟩

theorem checkAll_map_ty {parameters : List Parameter} {types : List Ty}
    (hTypes : List.Forall₂ (fun parameter => Denotes parameter.typeName) parameters types) :
    (checkAll parameters).1.map (·.ty) = types.map some := by
  rw [checkAll_fst]
  induction hTypes with
  | nil => rfl
  | @cons parameter ty _ _ hTy _ ih =>
    have hName : Ty.ofName? parameter.typeName.name = some ty := hTy
    simp only [List.map_cons, check_ty, hName, ih]

theorem denotes_of_mem {parameters : List Parameter} {types : List Ty} {parameter : Parameter}
    (hTypes : List.Forall₂ (fun parameter => Denotes parameter.typeName) parameters types)
    (hMem : parameter ∈ parameters) : ∃ ty, Denotes parameter.typeName ty := by
  induction hTypes with
  | nil => cases hMem
  | cons hTy _ ih =>
    rcases List.mem_cons.mp hMem with rfl | hMem
    · exact ⟨_, hTy⟩
    · exact ih hMem

/-- The scope of the parameters of a function agrees with their layer. -/
theorem scope_models {parameters : List Parameter} {types : List Ty}
    (hTypes : List.Forall₂ (fun parameter => Denotes parameter.typeName) parameters types) :
    (Scope.ofSymbols ((checkAll parameters).1.map symbol)).Models (.ofParameters parameters) := by
  intro name
  rw [Scope.get?_ofSymbols, checkAll_fst, List.map_map, List.find?_map, Layer.ofParameters]
  have hSame : ((fun symbol : Symbol => decide (symbol.name = name)) ∘
      symbol ∘ fun parameter : Parameter => parameter.check.1) =
      fun parameter => decide (parameter.name = name) := rfl
  rw [hSame]
  cases hFind : parameters.find? (·.name = name) with
  | none => exact .none
  | some parameter =>
    obtain ⟨ty, hTy⟩ := denotes_of_mem hTypes (List.mem_of_find?_eq_some hFind)
    have hName : Ty.ofName? parameter.typeName.name = some ty := hTy
    simp only [Option.map_some, Option.bind_some, hName]
    exact .some ⟨by simp [symbol, hName], rfl⟩

end Parameter

variable {Γ Γ' : Context} {state : State} {returns : Option Returns}

/-! ## Well-typed statements are checked without a diagnostic -/

theorem Expr.checkOption_complete (hM : Models Γ state returns) (name : String) {ty : Ty}
    {value : Option Expr} (hValue : ∀ e, value = some e → HasType Γ e ty) :
    (Expr.checkOption state value).2 = [] ∧
      Verdict.ofDeclaration name (some ty) ((Expr.checkOption state value).1.map Expr.ty) =
        .typed ty := by
  cases value with
  | none => exact ⟨rfl, rfl⟩
  | some e =>
    obtain ⟨hNil, hTy⟩ := Expr.check_complete hM (hValue e rfl)
    simp [Expr.checkOption, hNil, hTy, Verdict.ofDeclaration]

namespace Stmt

/-- Statements with the given number of returns have been checked without a diagnostic, and what is
known after them agrees with a context. -/
structure Agrees {α : Type} (Γ : Context) (before : Option Returns) (count : Nat)
    (outcome : Outcome α) : Prop where
  silent : outcome.diagnostics = []
  models : Models Γ outcome.state outcome.returns
  count : outcome.returns.map (·.count) = before.map (·.count + count)

theorem count_add {before between after : Option Returns} {m n : Nat}
    (hFirst : between.map (·.count) = before.map (·.count + m))
    (hSecond : after.map (·.count) = between.map (·.count + n)) :
    after.map (·.count) = before.map (·.count + (m + n)) := by
  cases before <;> cases between <;> cases after <;> simp at hFirst hSecond ⊢
  omega

theorem checkVar_complete (hM : Models Γ state returns) {name : String} {typeName : TypeName}
    {value : Option Expr} {info : Info} {ty : Ty} (hName : Γ.Declarable name)
    (hTy : Denotes typeName ty) (hValue : ∀ e, value = some e → HasType Γ e ty) :
    Agrees (Γ.declare name ⟨ty, true⟩) returns 0
      (check state returns (.varDecl name typeName value info)) := by
  obtain ⟨hNil, hVerdict⟩ := Expr.checkOption_complete hM name hValue
  have hTypeNil := TypeName.check_eq_nil_iff.mpr ⟨ty, hTy⟩
  have hDeclared : Ty.ofName? typeName.name = some ty := hTy
  have hFree := checkVar_of_free typeName value info (hM.obstacle?_eq_none_iff.mpr hName)
  simp only [hDeclared, hVerdict, hNil, hTypeNil] at hFree
  refine ⟨?_, ?_, ?_⟩
  · simp [check, hFree, Verdict.typed]
  · simp only [check, hFree]
    exact hM.insert ⟨name, .var, some ty, info.line⟩ ⟨ty, true⟩ ⟨rfl, rfl⟩
  · simp [check]

theorem checkConst_complete (hM : Models Γ state returns) {name : String} {value : Expr}
    {info : Info} {ty : Ty} (hName : Γ.Declarable name) (hValue : HasType Γ value ty) :
    Agrees (Γ.declare name ⟨ty, false⟩) returns 0
      (check state returns (.constDecl name value info)) := by
  obtain ⟨hNil, hTy⟩ := Expr.check_complete hM hValue
  have hFree := checkConst_of_free value info (hM.obstacle?_eq_none_iff.mpr hName)
  simp only [hNil, hTy] at hFree
  refine ⟨?_, ?_, ?_⟩
  · simp [check, hFree]
  · simp only [check, hFree]
    exact hM.insert ⟨name, .const, some ty, info.line⟩ ⟨ty, false⟩ ⟨rfl, rfl⟩
  · simp [check]

theorem checkAssign_complete (hM : Models Γ state returns) {target : Location} {value : Expr}
    {info : Info} {ty : Ty} (hTarget : Γ.visible target.name = some ⟨ty, true⟩)
    (hValue : HasType Γ value ty) :
    Agrees Γ returns 0 (check state returns (.assign target value info)) := by
  obtain ⟨hNil, hTy⟩ := Expr.check_complete hM hValue
  have hRel := hM.resolve? target.name
  rw [hTarget] at hRel
  generalize hFound : state.scopes.resolve? target.name = found at hRel
  cases hRel with
  | @some symbol _ hSymbol =>
    obtain ⟨hSymbolTy, hWritable⟩ := hSymbol
    refine ⟨?_, hM, by simp [check]⟩
    simp [check, checkAssign, Location.check, Verdict.ofLocation, Scopes.lookup,
      Verdict.ofAssignment, hFound, hNil, hTy, hSymbolTy, hWritable, Verdict.typed]

theorem checkReturn_complete (hM : Models Γ state returns) {fn : FnScope} {value : Expr}
    {info : Info} (hFn : Γ.function? = some fn) (hValue : HasType Γ value fn.returns) :
    Agrees Γ returns 1 (check state returns (.ret value info)) := by
  obtain ⟨hNil, hTy⟩ := Expr.check_complete hM hValue
  obtain ⟨hGlobals, hFunctions, hFunction⟩ := hM
  rw [hFn] at hFunction
  generalize hScope : state.scopes.function? = scope? at hFunction
  cases hFunction with
  | @inside _ scope returns hNames hExpected hObserved =>
    refine ⟨?_, ⟨hGlobals, hFunctions, ?_⟩, ?_⟩
    · simp [check, hNil, hTy, Verdict.ofReturn, hExpected, Verdict.typed]
    · simp only [check, hScope, hFn, hTy, Option.map_some]
      refine .inside hNames hExpected ?_
      intro ty hMem
      simp only [Returns.add, Returns.observe, Returns.tally, List.mem_filter, Bool.or_eq_true,
        decide_eq_true_eq, List.contains_iff_mem] at hMem
      rcases hMem.2 with hEq | hMem
      · exact hEq
      · exact hObserved ty hMem
    · simp [check, hTy, Returns.add, Returns.observe, Returns.tally]

/-! ### Functions -/

theorem checkHead_complete (hM : Models Γ state returns) {name : String}
    {parameters : List Parameter} {typeName : TypeName} {type : FnType} (line : UInt32)
    (hNew : Γ.functions name = none)
    (hTypes : List.Forall₂ (fun parameter => Denotes parameter.typeName) parameters
      type.parameters)
    (hNodup : (parameters.map (·.name)).Nodup) (hReturns : Denotes typeName type.returns) :
    checkHead state name parameters typeName line =
      ((Parameter.checkAll parameters).1, typeName.check.1, []) := by
  have hUnknown := hM.get?_eq_none_iff.mpr hNew
  have hParameters := Parameter.checkAll_eq_nil_iff.mpr ⟨_, hTypes⟩
  have hTypeName := TypeName.check_eq_nil_iff.mpr ⟨_, hReturns⟩
  have hDistinct := hasDuplicates_eq_false_iff.mpr hNodup
  simp only [checkHead, hUnknown, hParameters, hTypeName, Parameter.checkAll_map_name, hDistinct]
  rfl

/-- What is known inside of a function agrees with the context of its body. -/
theorem enterFn_complete (hM : Models Γ state returns) {name : String}
    {parameters : List Parameter} {type : FnType} (line : UInt32)
    (hOutside : Γ.function? = none) (hNew : Γ.functions name = none)
    (hTypes : List.Forall₂ (fun parameter => Denotes parameter.typeName) parameters
      type.parameters) :
    ∃ inside, enterFn state name (Parameter.checkAll parameters).1 (some type.returns) line =
        .ok inside ∧
      Models ((Γ.addFunction name type).enter ⟨.ofParameters parameters, type.returns⟩) inside
        (some { name, expected := some type.returns }) := by
  have hUnknown := hM.get?_eq_none_iff.mpr hNew
  obtain ⟨hGlobals, hFunctions, hFunction⟩ := hM
  rw [hOutside] at hFunction
  generalize hScope : state.scopes.function? = scope? at hFunction
  cases hFunction
  simp only [enterFn, Scopes.enter, Scopes.inFunction, hScope, hUnknown]
  refine ⟨_, rfl, hGlobals, ?_, .inside (Parameter.scope_models hTypes) rfl (by simp)⟩
  intro other
  rw [Functions.get?_insert]
  simp only [Context.enter, Context.addFunction]
  by_cases hName : name = other
  · subst hName
    simpa using Option.Rel.some ⟨Parameter.checkAll_map_ty hTypes, rfl⟩
  · rw [if_neg hName, Function.update_of_ne (Ne.symm hName)]
    exact hFunctions other

/-- The returns of a function whose body has been checked without a diagnostic break no rule. -/
theorem ofReturns_eq_none {fn : Option FnScope} {scope : Option Scope} {returns : Option Returns}
    {count : Nat} (hFunction : FnScope.Models fn scope returns)
    (hCount : returns.map (·.count) = some count) (hPos : 0 < count) :
    returns.bind Verdict.ofReturns = none := by
  cases hFunction with
  | outside => rfl
  | @inside fn scope returns _ hExpected hObserved =>
    have hReturned : returns.count ≠ 0 := by
      rw [Option.map_some, Option.some.injEq] at hCount
      omega
    have hNone : returns.observed.any (· ≠ fn.returns) = false := by
      simpa using hObserved
    simp only [Option.bind_some, Verdict.ofReturns, hReturned, hExpected, hNone]
    rfl

theorem checkFn_complete (hM : Models Γ state returns) {name : String}
    {parameters : List Parameter} {typeName : TypeName} {body : List Stmt} {bodyLine line : UInt32}
    {type : FnType} (hOutside : Γ.function? = none) (hNew : Γ.functions name = none)
    (hTypes : List.Forall₂ (fun parameter => Denotes parameter.typeName) parameters
      type.parameters)
    (hNodup : (parameters.map (·.name)).Nodup) (hReturns : Denotes typeName type.returns)
    (hBody : AllWellTyped
      ((Γ.addFunction name type).enter ⟨.ofParameters parameters, type.returns⟩) body Γ')
    (hCount : 0 < returnCounts body)
    (hAgrees : ∀ inside returns, Models
      ((Γ.addFunction name type).enter ⟨.ofParameters parameters, type.returns⟩) inside returns →
      Agrees Γ' returns (returnCounts body) (checkAll inside returns body)) :
    Agrees (Γ.addFunction name type) returns 0
      (check state returns (.fnDecl name parameters typeName ⟨bodyLine, body⟩ line)) := by
  have hHead := checkHead_complete hM line hNew hTypes hNodup hReturns
  obtain ⟨inside, hEnter, hInside⟩ := enterFn_complete hM line hOutside hNew hTypes
  obtain ⟨hSilent, hModels, hReturned⟩ := hAgrees inside _ hInside
  obtain ⟨hGlobals, hFunctions, -⟩ := hBody.inside rfl
  have hExpected : typeName.check.1.ty = some type.returns := by
    rw [TypeName.check_ty]
    exact hReturns
  have hVerdict := ofReturns_eq_none hModels.function hReturned (by simpa using hCount)
  simp only [check, hHead, hExpected, hEnter, hVerdict, hSilent]
  refine ⟨rfl, ⟨?_, ?_, ?_⟩, by simp⟩
  · exact hGlobals ▸ hModels.globals
  · exact fun other => congrFun hFunctions other ▸ hModels.functions other
  · have hFunction := hM.function
    rw [hOutside] at hFunction
    simp only [Context.addFunction, hOutside, Scopes.leave]
    generalize state.scopes.function? = scope? at hFunction
    cases hFunction
    exact .outside

mutual

/-- A well-typed statement is checked without a diagnostic and leads to the context that its rule
gives. -/
theorem check_complete {state : State} {returns : Option Returns} :
    ∀ {stmt : Stmt} {Γ Γ' : Context}, Models Γ state returns → WellTyped Γ stmt Γ' →
      Agrees Γ' returns (returnCount stmt) (stmt.check state returns)
  | .varDecl .., _, _, hM, .varDecl hName hTy hValue => checkVar_complete hM hName hTy hValue
  | .constDecl .., _, _, hM, .constDecl hName hValue => checkConst_complete hM hName hValue
  | .echo .., _, _, hM, .echo hValue =>
    ⟨(Expr.check_complete hM hValue).1, hM, by simp [check, returnCount]⟩
  | .branch .., _, _, hM, .branch hCondition hThen hElse => by
    obtain ⟨hNil, hTy⟩ := Expr.check_complete hM hCondition
    obtain ⟨hThenNil, hThenModels, hThenCount⟩ := checkAll_complete hM hThen
    obtain ⟨hElseNil, hElseModels, hElseCount⟩ := checkAll_complete hThenModels hElse
    simp only [check, hTy, hNil, Verdict.ofCondition, Verdict.typed, Option.isSome_some, if_true]
    exact ⟨by simp [hThenNil, hElseNil], hElseModels, count_add hThenCount hElseCount⟩
  | .loop .., _, _, hM, .loop hCondition hBody => by
    obtain ⟨hNil, hTy⟩ := Expr.check_complete hM hCondition
    obtain ⟨hBodyNil, hBodyModels, hBodyCount⟩ := checkAll_complete hM hBody
    simp only [check, hTy, hNil, Verdict.ofCondition, Verdict.typed, Option.isSome_some, if_true]
    exact ⟨by simp [hBodyNil], hBodyModels, hBodyCount⟩
  | .assign .., _, _, hM, .assign hTarget hValue => checkAssign_complete hM hTarget hValue
  | .fnDecl .., _, _, hM, .fnDecl hOutside hNew hTypes hNodup hReturns hBody hCount =>
    checkFn_complete hM hOutside hNew hTypes hNodup hReturns hBody hCount
      fun _ _ hInside => checkAll_complete hInside hBody
  | .ret .., _, _, hM, .ret hFn hValue => checkReturn_complete hM hFn hValue

theorem checkAll_complete {state : State} {returns : Option Returns} :
    ∀ {stmts : List Stmt} {Γ Γ' : Context}, Models Γ state returns → AllWellTyped Γ stmts Γ' →
      Agrees Γ' returns (returnCounts stmts) (checkAll state returns stmts)
  | [], _, _, hM, .nil => ⟨rfl, hM, by simp [checkAll, returnCounts]⟩
  | stmt :: stmts, _, _, hM, .cons hHead hTail => by
    obtain ⟨hHeadNil, hHeadModels, hHeadCount⟩ := check_complete hM hHead
    obtain ⟨hTailNil, hTailModels, hTailCount⟩ := checkAll_complete hHeadModels hTail
    exact ⟨by simp [checkAll, hHeadNil, hTailNil], hTailModels, count_add hHeadCount hTailCount⟩

end

/-! ## Statements that are checked without a diagnostic are well typed -/

theorem checkVar_sound (hM : Models Γ state returns) {name : String} {typeName : TypeName}
    {value : Option Expr} {info : Info}
    (hNil : (checkVar state name typeName value info).2.2 = []) :
    ∃ Γ', WellTyped Γ (.varDecl name typeName value info) Γ' := by
  cases hObstacle : state.scopes.obstacle? name with
  | some violation => simp [checkVar_of_taken typeName value info hObstacle] at hNil
  | none =>
    rw [checkVar_of_free typeName value info hObstacle] at hNil
    simp only [List.append_eq_nil_iff, Verdict.diagnostics_eq_nil] at hNil
    obtain ⟨⟨hTypeNil, hValueNil⟩, hVerdict⟩ := hNil
    obtain ⟨ty, hTy⟩ := TypeName.check_eq_nil_iff.mp hTypeNil
    refine ⟨_, .varDecl (hM.obstacle?_eq_none_iff.mp hObstacle) hTy ?_⟩
    rintro e rfl
    obtain ⟨assigned, hAssigned, hValue⟩ := Expr.check_sound hM e hValueNil
    have hDeclared : Ty.ofName? typeName.name = some ty := hTy
    simp only [Expr.checkOption, Option.map_some, hAssigned, hDeclared,
      Verdict.ofDeclaration] at hVerdict
    split at hVerdict
    · next hEq => exact hEq ▸ hValue
    · cases hVerdict

theorem checkConst_sound (hM : Models Γ state returns) {name : String} {value : Expr}
    {info : Info} (hNil : (checkConst state name value info).2.2 = []) :
    ∃ Γ', WellTyped Γ (.constDecl name value info) Γ' := by
  cases hObstacle : state.scopes.obstacle? name with
  | some violation => simp [checkConst_of_taken value info hObstacle] at hNil
  | none =>
    rw [checkConst_of_free value info hObstacle] at hNil
    obtain ⟨ty, -, hValue⟩ := Expr.check_sound hM value hNil
    exact ⟨_, .constDecl (hM.obstacle?_eq_none_iff.mp hObstacle) hValue⟩

theorem checkAssign_sound (hM : Models Γ state returns) {target : Location} {value : Expr}
    {info : Info} (hNil : (checkAssign state target value info).2 = []) :
    ∃ Γ', WellTyped Γ (.assign target value info) Γ' := by
  simp only [checkAssign, Location.check, List.append_eq_nil_iff,
    Verdict.diagnostics_eq_nil] at hNil
  obtain ⟨⟨hTargetNil, hValueNil⟩, hVerdict⟩ := hNil
  obtain ⟨ty, hTy, hValue⟩ := Expr.check_sound hM value hValueNil
  have hRel := hM.resolve? target.name
  rcases hM.ofLocation target.name with ⟨⟨targetTy, writable⟩, hVisible, -⟩ | ⟨-, hBroken⟩
  · rw [hVisible] at hRel
    generalize hFound : state.scopes.resolve? target.name = found at hRel
    cases hRel with
    | @some symbol _ hSymbol =>
      obtain ⟨hSymbolTy, hConstant⟩ := hSymbol
      simp only [Verdict.ofAssignment, hFound, hTy, hSymbolTy, hConstant] at hVerdict
      split at hVerdict
      · cases hVerdict
      · next hWritable =>
        split at hVerdict
        · next hEq =>
          have hTrue : writable = true := by simpa using hWritable
          subst hEq hTrue
          exact ⟨Γ, .assign hVisible hValue⟩
        · cases hVerdict
  · exact absurd hTargetNil hBroken

theorem checkReturn_sound (hM : Models Γ state returns) {value : Expr} {info : Info}
    (hNil : (check state returns (.ret value info)).diagnostics = []) :
    ∃ Γ', WellTyped Γ (.ret value info) Γ' := by
  simp only [check, List.append_eq_nil_iff, Verdict.diagnostics_eq_nil] at hNil
  obtain ⟨hValueNil, hVerdict⟩ := hNil
  obtain ⟨ty, hTy, hValue⟩ := Expr.check_sound hM value hValueNil
  have hFunction := hM.function
  generalize hFn : Γ.function? = fn? at hFunction
  generalize state.scopes.function? = scope? at hFunction
  cases hFunction with
  | outside => cases hVerdict
  | inside _ hExpected _ =>
    simp only [hTy, Verdict.ofReturn, hExpected] at hVerdict
    split at hVerdict
    · next hEq => exact ⟨Γ, .ret hFn (hEq ▸ hValue)⟩
    · cases hVerdict

theorem checkHead_sound (hM : Models Γ state returns) {name : String}
    {parameters : List Parameter} {typeName : TypeName} {line : UInt32}
    (hNil : (checkHead state name parameters typeName line).2.2 = []) :
    Γ.functions name = none ∧ (parameters.map (·.name)).Nodup ∧ ∃ type : FnType,
      List.Forall₂ (fun parameter => Denotes parameter.typeName) parameters type.parameters ∧
        Denotes typeName type.returns := by
  simp only [checkHead, List.append_eq_nil_iff, Option.toList_eq_nil_iff, Option.map_eq_none_iff,
    Parameter.checkAll_map_name] at hNil
  obtain ⟨⟨⟨hNew, hParameters⟩, hRepeated⟩, hReturns⟩ := hNil
  obtain ⟨types, hTypes⟩ := Parameter.checkAll_eq_nil_iff.mp hParameters
  obtain ⟨result, hResult⟩ := TypeName.check_eq_nil_iff.mp hReturns
  refine ⟨hM.get?_eq_none_iff.mp hNew, ?_, ⟨types, result⟩, hTypes, hResult⟩
  rw [← hasDuplicates_eq_false_iff]
  by_contra hDuplicates
  simp [hDuplicates] at hRepeated

/-- A function whose returns break no rule has a return statement. -/
theorem returnCounts_pos_of_ofReturns {name : String} {expected : Option Ty}
    {after : Option Returns} {count : Nat}
    (hCount : after.map (·.count) =
      (some ({ name, expected } : Returns)).map (·.count + count))
    (hVerdict : after.bind Verdict.ofReturns = none) : 0 < count := by
  cases after with
  | none => cases hCount
  | some returns =>
    simp only [Option.map_some, Option.some.injEq, Nat.zero_add] at hCount
    by_contra hZero
    simp [Verdict.ofReturns, hCount, Nat.eq_zero_of_not_pos hZero] at hVerdict

/-- A function cannot be entered inside of a function. -/
theorem enterFn_sound (hM : Models Γ state returns) {name : String} {parameters : List Parameter}
    {result : Option Ty} {line : UInt32} {inside : State}
    (hEnter : enterFn state name parameters result line = .ok inside) : Γ.function? = none := by
  have hFunction := hM.function
  generalize Γ.function? = fn? at hFunction ⊢
  generalize hScope : state.scopes.function? = scope? at hFunction
  cases hFunction with
  | outside => rfl
  | inside _ _ _ => simp [enterFn, Scopes.enter, Scopes.inFunction, hScope, Except.map] at hEnter

theorem checkFn_sound (hM : Models Γ state returns) {name : String}
    {parameters : List Parameter} {typeName : TypeName} {body : List Stmt} {bodyLine line : UInt32}
    (hNil : (check state returns
      (.fnDecl name parameters typeName ⟨bodyLine, body⟩ line)).diagnostics = [])
    (hBody : ∀ {Γ : Context} {inside : State} {returns : Option Returns},
      Models Γ inside returns → (checkAll inside returns body).diagnostics = [] →
      ∃ Γ', AllWellTyped Γ body Γ') :
    ∃ Γ', WellTyped Γ (.fnDecl name parameters typeName ⟨bodyLine, body⟩ line) Γ' := by
  have hHeadNil : (checkHead state name parameters typeName line).2.2 = [] := by
    simp only [check] at hNil
    split at hNil
    · exact (List.append_eq_nil_iff.mp hNil).1
    · exact (List.append_eq_nil_iff.mp (List.append_eq_nil_iff.mp hNil).1).1
  obtain ⟨hNew, hNodup, type, hTypes, hReturns⟩ := checkHead_sound hM hHeadNil
  have hHead := checkHead_complete hM line hNew hTypes hNodup hReturns
  have hExpected : typeName.check.1.ty = some type.returns := by
    rw [TypeName.check_ty]
    exact hReturns
  simp only [check, hHead, hExpected] at hNil
  cases hEnter : enterFn state name (Parameter.checkAll parameters).1 (some type.returns) line with
  | error violation => simp [hEnter] at hNil
  | ok inside =>
    have hOutside := enterFn_sound hM hEnter
    obtain ⟨_, hInside, hModels⟩ := enterFn_complete hM line hOutside hNew hTypes
    rw [hEnter, Except.ok.injEq] at hInside
    subst hInside
    simp only [hEnter, List.nil_append, List.append_eq_nil_iff, List.map_eq_nil_iff,
      Option.toList_eq_nil_iff] at hNil
    obtain ⟨Γ₁, hTyped⟩ := hBody hModels hNil.1
    -- The returns are counted along the body, and the count is that of the rule by completeness.
    refine ⟨_, .fnDecl hOutside hNew hTypes hNodup hReturns hTyped ?_⟩
    exact returnCounts_pos_of_ofReturns (checkAll_complete hModels hTyped).count hNil.2

theorem condition_sound (hM : Models Γ state returns) {condition : Expr}
    (hNil : (condition.check state).2 = [])
    (hSome : (Verdict.ofCondition (condition.check state).1.ty).ty.isSome) :
    HasType Γ condition .bool := by
  obtain ⟨ty, hTy, hType⟩ := Expr.check_sound hM condition hNil
  rw [Verdict.ofCondition_ty_isSome.mp hSome, Option.some.injEq] at hTy
  exact hTy ▸ hType

/-- A condition whose blocks are skipped has a diagnostic of its own or is refused for its type. -/
theorem condition_refused (hM : Models Γ state returns) {condition : Expr} {line : UInt32}
    (hNone : ¬ (Verdict.ofCondition (condition.check state).1.ty).ty.isSome) :
    (condition.check state).2 ++
      (Verdict.ofCondition (condition.check state).1.ty).diagnostics line ≠ [] := by
  intro hNil
  simp only [List.append_eq_nil_iff, Verdict.diagnostics_eq_nil] at hNil
  obtain ⟨ty, hTy, -⟩ := Expr.check_sound hM condition hNil.1
  rw [hTy, Verdict.ofCondition_violation_eq_none] at hNil
  exact hNone (Verdict.ofCondition_ty_isSome.mpr (by rw [hTy, hNil.2]))

mutual

/-- A statement that is checked without a diagnostic is well typed. -/
theorem check_sound {state : State} {returns : Option Returns} :
    ∀ {stmt : Stmt} {Γ : Context}, Models Γ state returns →
      (stmt.check state returns).diagnostics = [] → ∃ Γ', WellTyped Γ stmt Γ'
  | .varDecl .., _, hM, hNil => checkVar_sound hM hNil
  | .constDecl .., _, hM, hNil => checkConst_sound hM hNil
  | .echo value line, _, hM, hNil => by
    obtain ⟨ty, -, hValue⟩ := Expr.check_sound hM value hNil
    exact ⟨_, .echo hValue⟩
  | .branch condition ⟨_, thenBody⟩ ⟨_, elseBody⟩ line, _, hM, hNil => by
    simp only [check] at hNil
    split at hNil
    · next hSome =>
      simp only [List.append_eq_nil_iff] at hNil
      obtain ⟨⟨hConditionNil, hThenNil⟩, hElseNil⟩ := hNil
      -- Completeness gives the state in which the second block is checked.
      obtain ⟨Γ₁, hThen⟩ := checkAll_sound hM hThenNil
      obtain ⟨Γ₂, hElse⟩ := checkAll_sound (checkAll_complete hM hThen).models hElseNil
      exact ⟨Γ₂, .branch (condition_sound hM hConditionNil hSome) hThen hElse⟩
    · next hNone => exact absurd hNil (condition_refused hM hNone)
  | .loop condition ⟨_, body⟩ line, _, hM, hNil => by
    simp only [check] at hNil
    split at hNil
    · next hSome =>
      simp only [List.append_eq_nil_iff] at hNil
      obtain ⟨Γ₁, hBody⟩ := checkAll_sound hM hNil.2
      exact ⟨Γ₁, .loop (condition_sound hM hNil.1 hSome) hBody⟩
    · next hNone => exact absurd hNil (condition_refused hM hNone)
  | .assign .., _, hM, hNil => checkAssign_sound hM hNil
  | .fnDecl _ _ _ ⟨_, _⟩ _, _, hM, hNil => checkFn_sound hM hNil checkAll_sound
  | .ret .., _, hM, hNil => checkReturn_sound hM hNil

theorem checkAll_sound {state : State} {returns : Option Returns} :
    ∀ {stmts : List Stmt} {Γ : Context}, Models Γ state returns →
      (checkAll state returns stmts).diagnostics = [] → ∃ Γ', AllWellTyped Γ stmts Γ'
  | [], Γ, _, _ => ⟨Γ, .nil⟩
  | stmt :: stmts, _, hM, hNil => by
    simp only [checkAll, List.append_eq_nil_iff] at hNil
    obtain ⟨Γ₁, hHead⟩ := check_sound hM hNil.1
    obtain ⟨Γ₂, hTail⟩ := checkAll_sound (check_complete hM hHead).models hNil.2
    exact ⟨Γ₂, .cons hHead hTail⟩

end

end Stmt

/-- **The checker decides the rules.** A program is checked without a diagnostic exactly if it is
well typed. -/
theorem Block.check_silent_iff_wellTyped (block : Block) :
    block.check.2 = [] ↔ block.WellTyped := by
  constructor
  · intro hNil
    exact Stmt.checkAll_sound .initial hNil
  · rintro ⟨Γ, hTyped⟩
    exact (Stmt.checkAll_complete .initial hTyped).silent

end Jingle.Syntax

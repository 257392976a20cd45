import Jingle.Proofs.Syntax.Relabelling
import Jingle.Proofs.Typing.Declaration

/-!
# Lines are not read, and names only compared

Lines stand in trees, in what is known about names and functions, and in diagnostics. Checking hands
them on and looks at none. Names are compared with each other and with the names of types, those of
functions apart from all others, and nothing else about them matters. So to check a tree with other
lines and other names, from a state that is changed in the same way, is to check the tree and to
change everything that comes out.

* `State.relabel` and `Diagnostic.relabel` change names and lines.
* `Expr.check_relabel` and `Stmt.check_relabel` say that checking commutes with a relabelling.
* `Block.check_rename` says it about programs that are renamed.
-/

/-! ## Diagnostics -/

namespace Jingle

open Syntax (Relabelling)

variable (r : Relabelling)

/-- The rule that is broken, with the names and lines in it changed. The names of types stay. -/
def Violation.relabel : Violation → Violation
  | nameNotDefined name => nameNotDefined (r.names name)
  | nameAlreadyDefined name line => nameAlreadyDefined (r.names name) (r.lines line)
  | reservedIdentifier name => reservedIdentifier (r.names name)
  | constantAssignment name => constantAssignment (r.names name)
  | declarationMismatch name declared assigned =>
    declarationMismatch (r.names name) declared assigned
  | assignmentMismatch name location value => assignmentMismatch (r.names name) location value
  | argumentMismatch name expected received =>
    argumentMismatch (r.functions name) expected received
  | nestedFunction name => nestedFunction (r.functions name)
  | functionAlreadyDefined name line => functionAlreadyDefined (r.functions name) (r.lines line)
  | functionNotDeclared name => functionNotDeclared (r.functions name)
  | missingReturn name => missingReturn (r.functions name)
  | tooManyReturnTypes name => tooManyReturnTypes (r.functions name)
  | violation@(invalidType ..) | violation@(binaryOperation ..) | violation@(unaryOperation ..)
  | violation@(conditionNotBool ..) | violation@(returnTypeMismatch ..)
  | violation@returnOutsideFunction | violation@duplicateParameters => violation

def Diagnostic.relabel (diagnostic : Diagnostic) : Diagnostic :=
  ⟨r.lines diagnostic.line, diagnostic.violation.relabel r⟩

theorem Diagnostic.map_relabel (violation? : Option Violation) (line : UInt32) :
    (violation?.toList.map (⟨line, ·⟩ : Violation → Diagnostic)).map (relabel r) =
      (violation?.map (Violation.relabel r)).toList.map (⟨r.lines line, ·⟩) := by
  cases violation? <;> rfl

namespace Typing

open Syntax

/-! ## Names and functions -/

def Symbol.relabel (symbol : Symbol) : Symbol :=
  { symbol with name := r.names symbol.name, line := r.lines symbol.line }

def Scope.relabel (scope : Scope) : Scope :=
  ⟨scope.symbols.map (Symbol.relabel r)⟩

def Scopes.relabel (scopes : Scopes) : Scopes :=
  ⟨scopes.globals.relabel r, scopes.function?.map (Scope.relabel r)⟩

def Signature.relabel (signature : Signature) : Signature :=
  { signature with name := r.functions signature.name, line := r.lines signature.line }

def Functions.relabel (functions : Functions) : Functions :=
  ⟨functions.signatures.map (Signature.relabel r)⟩

/-- What is known, with the names and lines of the declarations changed. -/
def State.relabel (state : State) : State :=
  ⟨state.scopes.relabel r, state.functions.relabel r⟩

def Returns.relabel (returns : Returns) : Returns :=
  { returns with name := r.functions returns.name }

namespace Scope

theorem get?_relabel (scope : Scope) (name : String) :
    (scope.relabel r).get? (r.names name) = (scope.get? name).map (Symbol.relabel r) := by
  have hSame : (fun symbol : Symbol => decide (symbol.name = r.names name)) ∘ Symbol.relabel r =
      fun symbol => decide (symbol.name = name) := by
    funext symbol
    simp only [Function.comp_apply, Symbol.relabel, r.names_injective.eq_iff]
  rw [get?, relabel, List.find?_map, hSame]
  rfl

theorem insert_relabel (scope : Scope) (symbol : Symbol) :
    (scope.relabel r).insert (symbol.relabel r) = (scope.insert symbol).relabel r :=
  rfl

theorem ofSymbols_relabel (symbols : List Symbol) :
    ofSymbols (symbols.map (Symbol.relabel r)) = (ofSymbols symbols).relabel r := by
  -- The scope is filled one by one, so the induction is for any scope to start from.
  have hFrom : ∀ scope : Scope,
      (symbols.map (Symbol.relabel r)).foldl (fun scope symbol =>
        if (scope.get? symbol.name).isSome then scope else scope.insert symbol) (scope.relabel r) =
      (symbols.foldl (fun scope symbol =>
        if (scope.get? symbol.name).isSome then scope
        else scope.insert symbol) scope).relabel r := by
    induction symbols with
    | nil => exact fun _ => rfl
    | cons symbol symbols ih =>
      intro scope
      have hName : (symbol.relabel r).name = r.names symbol.name := rfl
      rw [List.map_cons, List.foldl_cons, List.foldl_cons, ← ih, hName, get?_relabel,
        Option.isSome_map, insert_relabel, ← apply_ite (relabel r)]
  exact hFrom empty

end Scope

namespace Scopes

theorem resolve?_relabel (scopes : Scopes) (name : String) :
    (scopes.relabel r).resolve? (r.names name) =
      (scopes.resolve? name).map (Symbol.relabel r) := by
  obtain ⟨globals, function?⟩ := scopes
  cases function? with
  | none => exact Scope.get?_relabel r globals name
  | some scope =>
    simp only [resolve?, relabel, Option.map_some, Option.bind_some, Scope.get?_relabel]
    cases scope.get? name <;> rfl

/-- What stands against a name is that it is reserved or visible, and neither changes. -/
theorem obstacle?_relabel (scopes : Scopes) (name : String) :
    (scopes.relabel r).obstacle? (r.names name) =
      (scopes.obstacle? name).map (Violation.relabel r) := by
  unfold obstacle?
  rw [resolve?_relabel, r.reserved]
  split
  · rfl
  · cases scopes.resolve? name <;> rfl

theorem insert_relabel (scopes : Scopes) (symbol : Symbol) :
    (scopes.relabel r).insert (symbol.relabel r) = (scopes.insert symbol).relabel r := by
  obtain ⟨globals, function?⟩ := scopes
  cases function? <;> rfl

theorem enter_relabel (scopes : Scopes) (name : String) (scope : Scope) :
    (scopes.relabel r).enter (r.functions name) (scope.relabel r) =
      match scopes.enter name scope with
      | .ok scopes => .ok (scopes.relabel r)
      | .error violation => .error (violation.relabel r) := by
  obtain ⟨globals, function?⟩ := scopes
  cases function? <;> rfl

end Scopes

namespace Functions

theorem get?_relabel (functions : Functions) (name : String) :
    (functions.relabel r).get? (r.functions name) =
      (functions.get? name).map (Signature.relabel r) := by
  have hSame :
      (fun signature : Signature => decide (signature.name = r.functions name)) ∘
        Signature.relabel r = fun signature => decide (signature.name = name) := by
    funext signature
    simp only [Function.comp_apply, Signature.relabel, r.functions_injective.eq_iff]
  rw [get?, relabel, List.find?_map, hSame]
  rfl

theorem insert_relabel (functions : Functions) (signature : Signature) :
    (functions.relabel r).insert (signature.relabel r) =
      (functions.insert signature).relabel r := by
  have hSame :
      (fun other : Signature => decide (other.name ≠ (signature.relabel r).name)) ∘
        Signature.relabel r = fun other => decide (other.name ≠ signature.name) := by
    funext other
    simp only [Function.comp_apply, Signature.relabel, ne_eq, r.functions_injective.eq_iff]
  simp only [insert, relabel, List.map_cons, List.filter_map, hSame]

end Functions

theorem hasDuplicates_map_names (names : List String) :
    hasDuplicates (names.map r.names) = hasDuplicates names := by
  induction names with
  | nil => rfl
  | cons name names ih =>
    have hMem : (names.map r.names).contains (r.names name) = names.contains name := by
      rw [Bool.eq_iff_iff, List.contains_iff_mem, List.contains_iff_mem, List.mem_map]
      constructor
      · rintro ⟨other, hOther, hEq⟩
        exact r.names_injective hEq ▸ hOther
      · exact fun h => ⟨name, h, rfl⟩
    rw [List.map_cons, hasDuplicates, hasDuplicates, hMem, ih]

/-! ## Verdicts -/

namespace Verdict

def relabel (verdict : Verdict) : Verdict :=
  ⟨verdict.ty, verdict.violation.map (Violation.relabel r)⟩

theorem diagnostics_relabel (verdict : Verdict) (line : UInt32) :
    (verdict.diagnostics line).map (Diagnostic.relabel r) =
      (verdict.relabel r).diagnostics (r.lines line) :=
  Diagnostic.map_relabel r verdict.violation line

theorem ofTypeName_relabel (name : String) : (ofTypeName name).relabel r = ofTypeName name := by
  unfold ofTypeName
  split <;> rfl

theorem ofLocation_relabel (scopes : Scopes) (name : String) :
    ofLocation (scopes.relabel r) (r.names name) = (ofLocation scopes name).relabel r := by
  simp only [ofLocation, Scopes.lookup, Scopes.resolve?_relabel]
  cases scopes.resolve? name <;> rfl

theorem ofBinary_relabel (op : BinaryOp) (left right : Option Ty) :
    (ofBinary op left right).relabel r = ofBinary op left right := by
  unfold ofBinary
  split
  · split <;> rfl
  · rfl

theorem ofUnary_relabel (op : UnaryOp) (operand : Option Ty) :
    (ofUnary op operand).relabel r = ofUnary op operand := by
  unfold ofUnary
  split
  · split <;> rfl
  · rfl

theorem ofCall_relabel (functions : Functions) (callee : String) (arguments : List (Option Ty)) :
    ofCall (functions.relabel r) (r.functions callee) arguments =
      (ofCall functions callee arguments).relabel r := by
  simp only [ofCall, Functions.get?_relabel]
  cases functions.get? callee with
  | none => rfl
  | some signature =>
    simp only [Option.map_some, Signature.relabel]
    split
    · split <;> rfl
    · rfl

theorem ofDeclaration_relabel (name : String) (declared : Option Ty)
    (value : Option (Option Ty)) :
    ofDeclaration (r.names name) declared value =
      (ofDeclaration name declared value).relabel r := by
  unfold ofDeclaration
  split
  · rfl
  · rfl
  · rfl
  · split <;> rfl

theorem ofAssignment_relabel (scopes : Scopes) (name : String) (value : Option Ty) :
    ofAssignment (scopes.relabel r) (r.names name) value =
      (ofAssignment scopes name value).relabel r := by
  simp only [ofAssignment, Scopes.resolve?_relabel]
  cases scopes.resolve? name with
  | none => rfl
  | some symbol =>
    cases value with
    | none => rfl
    | some value =>
      have hName : (symbol.relabel r).name = r.names symbol.name := rfl
      have hTy : (symbol.relabel r).ty = symbol.ty := rfl
      have hConstant : (symbol.relabel r).isConstant = symbol.isConstant := rfl
      simp only [Option.map_some, hName, hTy, hConstant]
      split
      · rfl
      · split
        · rfl
        · split <;> rfl

theorem ofReturn_relabel (returns : Option Returns) (value : Option Ty) :
    ofReturn (returns.map (Returns.relabel r)) value = (ofReturn returns value).relabel r := by
  cases returns with
  | none => rfl
  | some returns =>
    cases value with
    | none => rfl
    | some ty =>
      simp only [Option.map_some, ofReturn, Returns.relabel]
      split
      · rfl
      · split <;> rfl

theorem ofCondition_relabel (condition : Option Ty) :
    (ofCondition condition).relabel r = ofCondition condition := by
  unfold ofCondition
  split <;> rfl

theorem ofReturns_relabel (returns : Option Returns) :
    (returns.map (Returns.relabel r)).bind ofReturns =
      (returns.bind ofReturns).map (Violation.relabel r) := by
  cases returns with
  | none => rfl
  | some returns =>
    simp only [Option.map_some, Option.bind_some, ofReturns, Returns.relabel]
    split
    · rfl
    · split
      · rfl
      · split <;> rfl

end Verdict

theorem Returns.relabel_add (returns : Option Returns) (ty : Option Ty) :
    (returns.map (Returns.relabel r)).map (·.add ty) =
      (returns.map (·.add ty)).map (Returns.relabel r) := by
  cases returns with
  | none => rfl
  | some returns => cases ty <;> rfl

/-- What becomes of a part of a program, with other names and lines. -/
def Outcome.relabel {α : Type} (relabelTree : α → α) (outcome : Outcome α) : Outcome α :=
  ⟨relabelTree outcome.tree, outcome.state.relabel r, outcome.returns.map (Returns.relabel r),
    outcome.diagnostics.map (Diagnostic.relabel r)⟩

end Typing

namespace Syntax

open Typing

/-! ## Expressions -/

theorem TypeName.check_relabel (typeName : TypeName) :
    (typeName.relabel r).check =
      (typeName.check.1.relabel r, typeName.check.2.map (Diagnostic.relabel r)) := by
  simp only [TypeName.check, Verdict.diagnostics_relabel, Verdict.ofTypeName_relabel]
  rfl

theorem Location.check_relabel (scopes : Scopes) (location : Location) :
    (location.relabel r).check (scopes.relabel r) =
      ((location.check scopes).1.relabel r,
        (location.check scopes).2.map (Diagnostic.relabel r)) := by
  have hName : (location.relabel r).name = r.names location.name := rfl
  simp only [Location.check, Verdict.diagnostics_relabel, hName, Verdict.ofLocation_relabel]
  rfl

mutual

theorem Expr.check_relabel (state : State) : ∀ e : Expr,
    (e.relabel r).check (state.relabel r) =
      ((e.check state).1.relabel r, (e.check state).2.map (Diagnostic.relabel r))
  | .literal .. => rfl
  | .binary _ left right _ => by
    simp only [Expr.relabel, Expr.check, left.check_relabel, right.check_relabel, Expr.relabel_ty,
      List.map_append, Verdict.diagnostics_relabel, Verdict.ofBinary_relabel]
    rfl
  | .unary _ operand _ => by
    simp only [Expr.relabel, Expr.check, operand.check_relabel, Expr.relabel_ty, List.map_append,
      Verdict.diagnostics_relabel, Verdict.ofUnary_relabel]
    rfl
  | .symbol location _ => by
    simp only [Expr.relabel, Expr.check, State.relabel, location.check_relabel]
    rfl
  | .call callee arguments _ => by
    have hTypes : ∀ exprs : List Expr,
        (Expr.relabelAll r exprs).map Expr.ty = exprs.map Expr.ty := by
      intro exprs
      rw [Expr.relabelAll_eq_map, List.map_map]
      exact List.map_congr_left fun e _ => e.relabel_ty r
    simp only [Expr.relabel, Expr.check, Expr.checkAll_relabel state arguments, hTypes,
      List.map_append, Verdict.diagnostics_relabel]
    simp only [State.relabel, Verdict.ofCall_relabel]
    rfl

theorem Expr.checkAll_relabel (state : State) : ∀ exprs : List Expr,
    Expr.checkAll (state.relabel r) (Expr.relabelAll r exprs) =
      (Expr.relabelAll r (Expr.checkAll state exprs).1,
        (Expr.checkAll state exprs).2.map (Diagnostic.relabel r))
  | [] => rfl
  | e :: exprs => by
    simp only [Expr.relabelAll, Expr.checkAll, e.check_relabel, Expr.checkAll_relabel,
      List.map_append]

end

theorem Expr.checkOption_relabel (state : State) (value : Option Expr) :
    Expr.checkOption (state.relabel r) (value.map (Expr.relabel r)) =
      ((Expr.checkOption state value).1.map (Expr.relabel r),
        (Expr.checkOption state value).2.map (Diagnostic.relabel r)) := by
  cases value with
  | none => rfl
  | some e => simp only [Option.map_some, Expr.checkOption, e.check_relabel]

/-! ## Heads of functions -/

theorem Parameter.checkAll_relabel (parameters : List Parameter) :
    Parameter.checkAll (parameters.map (Parameter.relabel r)) =
      ((Parameter.checkAll parameters).1.map (Parameter.relabel r),
        (Parameter.checkAll parameters).2.map (Diagnostic.relabel r)) := by
  induction parameters with
  | nil => rfl
  | cons parameter parameters ih =>
    have hType := parameter.typeName.check_relabel r
    simp only [List.map_cons, Parameter.checkAll, ih, Parameter.check, Parameter.relabel, hType,
      List.map_append]
    rfl

namespace Stmt

section Head

variable (state : State) (name : String) (parameters : List Parameter) (line : UInt32)

theorem checkHead_relabel (returns : TypeName) :
    checkHead (state.relabel r) (r.functions name) (parameters.map (Parameter.relabel r))
        (returns.relabel r) (r.lines line) =
      ((checkHead state name parameters returns line).1.map (Parameter.relabel r),
        (checkHead state name parameters returns line).2.1.relabel r,
        (checkHead state name parameters returns line).2.2.map (Diagnostic.relabel r)) := by
  have hNames : ∀ ps : List Parameter,
      hasDuplicates ((ps.map (Parameter.relabel r)).map (·.name)) =
        hasDuplicates (ps.map (·.name)) := by
    intro ps
    rw [← hasDuplicates_map_names r (ps.map (·.name)), List.map_map, List.map_map]
    rfl
  have hEarlier : (((state.functions.get? name).map (Signature.relabel r)).map fun signature =>
        (⟨r.lines line, .functionAlreadyDefined (r.functions name) signature.line⟩ :
          Diagnostic)).toList =
      ((state.functions.get? name).map fun signature =>
        (⟨line, .functionAlreadyDefined name signature.line⟩ : Diagnostic)).toList.map
          (Diagnostic.relabel r) := by
    cases state.functions.get? name <;> rfl
  have hRepeated : ∀ repeated : Bool,
      (if repeated then [⟨r.lines line, .duplicateParameters⟩] else [] : List Diagnostic) =
        (if repeated then [⟨line, .duplicateParameters⟩] else []).map (Diagnostic.relabel r) := by
    intro repeated
    cases repeated <;> rfl
  simp only [checkHead, State.relabel, Functions.get?_relabel, Parameter.checkAll_relabel, hNames,
    returns.check_relabel, List.map_append, hEarlier, hRepeated]

theorem enterFn_relabel (returns : Option Ty) :
    enterFn (state.relabel r) (r.functions name) (parameters.map (Parameter.relabel r)) returns
        (r.lines line) =
      match enterFn state name parameters returns line with
      | .ok inside => .ok (inside.relabel r)
      | .error violation => .error (violation.relabel r) := by
  have hSymbols : (parameters.map (Parameter.relabel r)).map Parameter.symbol =
      (parameters.map Parameter.symbol).map (Symbol.relabel r) := by
    rw [List.map_map, List.map_map]
    rfl
  have hTypes : (parameters.map (Parameter.relabel r)).map (·.ty) = parameters.map (·.ty) := by
    rw [List.map_map]
    rfl
  unfold enterFn
  rw [hSymbols, Scope.ofSymbols_relabel]
  simp only [State.relabel, Scopes.enter_relabel, Functions.get?_relabel, hTypes]
  cases state.scopes.enter name (.ofSymbols (parameters.map Parameter.symbol)) with
  | error violation => rfl
  | ok scopes =>
    cases hEarlier : state.functions.get? name with
    | some signature => simp only [Except.map, Option.map_some]
    | none =>
      simp only [Except.map, Option.map_none, ← Functions.insert_relabel]
      rfl

end Head

/-! ## Declarations and assignments -/

section Declaration

variable (state : State) (name : String) (typeName : TypeName) (value : Option Expr)
  (target : Location) (e : Expr) (info : Info)

theorem checkVar_relabel :
    checkVar (state.relabel r) (r.names name) (typeName.relabel r) (value.map (Expr.relabel r))
        (info.relabel r) =
      ((checkVar state name typeName value info).1.relabel r,
        (checkVar state name typeName value info).2.1.relabel r,
        (checkVar state name typeName value info).2.2.map (Diagnostic.relabel r)) := by
  have hChanged := state.scopes.obstacle?_relabel r name
  cases hObstacle : state.scopes.obstacle? name with
  | some violation =>
    rw [hObstacle] at hChanged
    rw [checkVar_of_taken _ _ _ hObstacle, checkVar_of_taken _ _ _ hChanged]
    rfl
  | none =>
    rw [hObstacle] at hChanged
    rw [checkVar_of_free _ _ _ hObstacle, checkVar_of_free _ _ _ hChanged]
    have hTypes : ((Expr.checkOption state value).1.map (Expr.relabel r)).map Expr.ty =
        (Expr.checkOption state value).1.map Expr.ty := by
      rw [Option.map_map]
      exact Option.map_congr fun e _ => e.relabel_ty r
    have hName : (typeName.relabel r).name = typeName.name := rfl
    simp only [Expr.checkOption_relabel, typeName.check_relabel, hTypes, hName, List.map_append,
      Verdict.diagnostics_relabel, Verdict.ofDeclaration_relabel]
    cases hTy : (Verdict.ofDeclaration name (Ty.ofName? typeName.name)
        ((Expr.checkOption state value).1.map Expr.ty)).ty with
    | none =>
      simp only [Verdict.relabel, hTy]
      rfl
    | some ty =>
      simp only [Verdict.relabel, hTy, State.relabel, ← Scopes.insert_relabel]
      rfl

theorem checkConst_relabel :
    checkConst (state.relabel r) (r.names name) (e.relabel r) (info.relabel r) =
      ((checkConst state name e info).1.relabel r,
        (checkConst state name e info).2.1.relabel r,
        (checkConst state name e info).2.2.map (Diagnostic.relabel r)) := by
  have hChanged := state.scopes.obstacle?_relabel r name
  cases hObstacle : state.scopes.obstacle? name with
  | some violation =>
    rw [hObstacle] at hChanged
    rw [checkConst_of_taken _ _ hObstacle, checkConst_of_taken _ _ hChanged]
    rfl
  | none =>
    rw [hObstacle] at hChanged
    rw [checkConst_of_free _ _ hObstacle, checkConst_of_free _ _ hChanged]
    simp only [e.check_relabel, Expr.relabel_ty]
    simp only [State.relabel, ← Scopes.insert_relabel]
    rfl

theorem checkAssign_relabel :
    checkAssign (state.relabel r) (target.relabel r) (e.relabel r) (info.relabel r) =
      ((checkAssign state target e info).1.relabel r,
        (checkAssign state target e info).2.map (Diagnostic.relabel r)) := by
  have hTarget := target.check_relabel r state.scopes
  have hName : ((target.check state.scopes).1.relabel r).name =
      r.names (target.check state.scopes).1.name := rfl
  simp only [checkAssign, e.check_relabel, Expr.relabel_ty, List.map_append,
    Verdict.diagnostics_relabel]
  simp only [State.relabel, hTarget, hName, Verdict.ofAssignment_relabel]
  rfl

end Declaration

/-! ## Statements -/

mutual

theorem check_relabel (state : State) (returns : Option Returns) : ∀ s : Stmt,
    (s.relabel r).check (state.relabel r) (returns.map (Returns.relabel r)) =
      (s.check state returns).relabel r (relabel r)
  | .varDecl name typeName value info => by
    simp only [relabel, check, checkVar_relabel]
    rfl
  | .constDecl name value info => by
    simp only [relabel, check, checkConst_relabel]
    rfl
  | .echo value _ => by
    simp only [relabel, check, value.check_relabel]
    rfl
  | .branch condition ⟨_, thenBody⟩ ⟨_, elseBody⟩ _ => by
    simp only [relabel, check, condition.check_relabel, Expr.relabel_ty]
    split
    · simp only [checkAll_relabel, Outcome.relabel, List.map_append]
      rfl
    · simp only [Outcome.relabel, List.map_append, Verdict.diagnostics_relabel,
        Verdict.ofCondition_relabel]
      rfl
  | .loop condition ⟨_, body⟩ _ => by
    simp only [relabel, check, condition.check_relabel, Expr.relabel_ty]
    split
    · simp only [checkAll_relabel, Outcome.relabel, List.map_append]
      rfl
    · simp only [Outcome.relabel, List.map_append, Verdict.diagnostics_relabel,
        Verdict.ofCondition_relabel]
      rfl
  | .assign target value info => by
    simp only [relabel, check, checkAssign_relabel]
    rfl
  | .fnDecl name parameters typeName ⟨_, body⟩ line => by
    have hTy : ∀ typeName : TypeName, (typeName.relabel r).ty = typeName.ty := fun _ => rfl
    simp only [relabel, check, checkHead_relabel r state name parameters line, hTy]
    obtain ⟨parameters, typeName, diagnostics⟩ := checkHead state name parameters typeName line
    simp only [enterFn_relabel r state name parameters line]
    cases enterFn state name parameters typeName.ty line with
    | error violation =>
      simp only [Outcome.relabel, List.map_append, List.map_singleton]
      rfl
    | ok inside =>
      have hBody := checkAll_relabel inside (some { name, expected := typeName.ty }) body
      have hReturns : (some { name, expected := typeName.ty } : Option Returns).map
          (Returns.relabel r) = some { name := r.functions name, expected := typeName.ty } := rfl
      rw [hReturns] at hBody
      simp only [hBody, Outcome.relabel, List.map_append, Verdict.ofReturns_relabel,
        Diagnostic.map_relabel]
      rfl
  | .ret value info => by
    simp only [relabel, check, value.check_relabel, Expr.relabel_ty, Outcome.relabel,
      List.map_append, Verdict.diagnostics_relabel, Verdict.ofReturn_relabel,
      Returns.relabel_add]
    rfl

theorem checkAll_relabel (state : State) (returns : Option Returns) : ∀ stmts : List Stmt,
    checkAll (state.relabel r) (returns.map (Returns.relabel r)) (relabelAll r stmts) =
      (checkAll state returns stmts).relabel r (relabelAll r)
  | [] => rfl
  | s :: stmts => by
    simp only [relabelAll, checkAll, check_relabel, checkAll_relabel, Outcome.relabel,
      List.map_append]

end

end Stmt

/-! ## Programs -/

theorem Block.check_relabel (block : Block) :
    (block.relabel r).check =
      (block.check.1.relabel r, block.check.2.map (Diagnostic.relabel r)) := by
  have hBody := Stmt.checkAll_relabel r .initial none block.body
  have hInitial : State.initial.relabel r = .initial := rfl
  rw [hInitial, Option.map_none] at hBody
  simp only [Block.check, Block.checkFrom, Block.relabel, hBody]
  rfl

/-- A renaming that leaves the lines as they are. -/
def Renaming.relabelling (r : Renaming) : Relabelling :=
  { r with lines := id }

/-- **Names are only compared.** Different names for variables and, apart from them, for functions
give different names in the annotated program and in the diagnostics, and nothing else: every node
keeps its place, its line and its type, and the diagnostics are as many, in the same order and on
the same lines. -/
theorem Block.check_rename (r : Renaming) (block : Block) :
    let renamed := (block.relabel r.relabelling).check
    renamed = (block.check.1.relabel r.relabelling,
        block.check.2.map (Diagnostic.relabel r.relabelling)) ∧
      renamed.1.outline.map (fun entry => (entry.1, entry.2.line, entry.2.ty)) =
        block.check.1.outline.map (fun entry => (entry.1, entry.2.line, entry.2.ty)) ∧
      renamed.2.map (·.line) = block.check.2.map (·.line) := by
  intro renamed
  have hRenamed : renamed = (block.check.1.relabel r.relabelling,
      block.check.2.map (Diagnostic.relabel r.relabelling)) :=
    block.check_relabel r.relabelling
  have hLines : ∀ line, r.relabelling.lines line = line := fun _ => rfl
  refine ⟨hRenamed, ?_, ?_⟩
  · rw [hRenamed, Block.outline_relabel, Outline.relabel, List.map_map]
    apply List.map_congr_left
    intro entry _
    simp only [Function.comp_apply, Node.relabel_line, Node.relabel_ty, hLines]
  · rw [hRenamed, List.map_map]
    rfl

/-- The two names in each other's place. -/
def exchange (first second name : String) : String :=
  if name = first then second else if name = second then first else name

theorem exchange_exchange (first second name : String) :
    exchange first second (exchange first second name) = name := by
  unfold exchange
  by_cases hFirst : name = first
  · by_cases hSecond : second = first
    · simp [hFirst, hSecond]
    · simp [hFirst, hSecond]
  · by_cases hSecond : name = second
    · simp [hSecond]
    · simp [hFirst, hSecond]

theorem exchange_injective (first second : String) :
    Function.Injective (exchange first second) := by
  intro name name' h
  rw [← exchange_exchange first second name, h, exchange_exchange]

/-- The program `const x = 1; echo f(y);` with the variables `x` and `y` exchanged, and with the
function `f` called `x`. -/
theorem Block.check_rename_exchange :
    let program (known unknown callee : String) : Block :=
      ⟨1, [.constDecl known (.literal (.integer 1) ⟨1, none⟩) ⟨1, none⟩,
        .echo (.call callee [.symbol ⟨⟨1, none⟩, unknown⟩ ⟨1, none⟩] ⟨1, none⟩) 1]⟩
    ∃ r : Renaming,
      (program "x" "y" "f").relabel r.relabelling = program "y" "x" "x" ∧
        (program "x" "y" "f").check.2 = [⟨1, .nameNotDefined "y"⟩, ⟨1, .functionNotDeclared "f"⟩] ∧
        (program "y" "x" "x").check.2 =
          [⟨1, .nameNotDefined "x"⟩, ⟨1, .functionNotDeclared "x"⟩] := by
  intro program
  have hReserved : ∀ name,
      (Ty.ofName? (exchange "x" "y" name)).isSome = (Ty.ofName? name).isSome := by
    intro name
    unfold exchange
    split
    · next hName => rw [hName]; decide
    · split
      · next hName => rw [hName]; decide
      · rfl
  let r : Renaming := ⟨exchange "x" "y", exchange "f" "x", exchange_injective "x" "y",
    exchange_injective "f" "x", hReserved⟩
  have hProgram : (program "x" "y" "f").relabel r.relabelling = program "y" "x" "x" := by rfl
  have hRenamed := (Block.check_rename r (program "x" "y" "f")).1
  rw [hProgram] at hRenamed
  refine ⟨r, hProgram, rfl, ?_⟩
  rw [hRenamed]
  rfl

end Syntax

end Jingle

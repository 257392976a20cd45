import Jingle.Typing.Expression

/-!
# Checking statements

Statements are checked in their order. A declaration changes what is known to the statements after
it, and a return statement is weighed against the function around it. Parts that a broken rule makes
meaningless are left as they are: the body of a branch whose condition is not a truth value, and
the declaration of a name that is taken.

* `Stmt.check` checks a statement and `Block.check` a program.
-/

namespace Jingle.Typing

open Syntax

/-- What becomes of a checked part of a program. -/
structure Outcome (α : Type) where
  /-- The part with its annotations. -/
  tree : α
  /-- What is known after the part. -/
  state : State
  /-- The returns of the function around the part. -/
  returns : Option Returns
  /-- The diagnostics of the part. -/
  diagnostics : List Diagnostic

namespace Verdict

/-- The verdict on the declaration of a variable with an optional initial value. -/
def ofDeclaration (name : String) : Option Ty → Option (Option Ty) → Verdict
  | none, _ => absent
  | some declared, none => typed declared
  | some _, some none => absent
  | some declared, some (some assigned) =>
    if assigned = declared then typed declared
    else broken (.declarationMismatch name declared.name assigned.name)

/-- The verdict on an assignment to a name. -/
def ofAssignment (scopes : Scopes) (name : String) (value : Option Ty) : Verdict :=
  match scopes.resolve? name, value with
  | some symbol, some value =>
    match symbol.ty with
    | none => absent
    | some location =>
      if symbol.isConstant then broken (.constantAssignment symbol.name)
      else if location = value then typed value
      else broken (.assignmentMismatch symbol.name location.name value.name)
  | _, _ => absent

/-- The verdict on a return statement. -/
def ofReturn : Option Returns → Option Ty → Verdict
  | none, _ => broken .returnOutsideFunction
  | some _, none => absent
  | some returns, some ty =>
    match returns.expected with
    | none => typed ty
    | some expected =>
      if expected = ty then typed ty else broken (.returnTypeMismatch expected.name ty.name)

/-- The verdict on a condition. Only a condition with a type is a truth value. -/
def ofCondition : Option Ty → Verdict
  | none => absent
  | some .bool => typed .bool
  | some found => broken (.conditionNotBool found.name)

/-- The verdict on a function after all of its return statements. -/
def ofReturns (returns : Returns) : Option Violation :=
  if returns.count = 0 then some (.missingReturn returns.name)
  else
    match returns.expected with
    | none => none
    | some expected =>
      if returns.observed.any (· ≠ expected) then some (.tooManyReturnTypes returns.name) else none

end Verdict

/-- The returns of a function after one more return statement. -/
def Returns.add (returns : Returns) : Option Ty → Returns
  | none => returns.tally
  | some ty => returns.tally.observe ty

/-- The layers with a name declared, or the layers unchanged and what stands against it. -/
def State.declare (state : State) (symbol : Symbol) : State × Option Violation :=
  match state.scopes.declare symbol with
  | .ok scopes => ({ state with scopes }, none)
  | .error violation => (state, some violation)

/-- Whether a name occurs twice. -/
def hasDuplicates : List String → Bool
  | [] => false
  | name :: names => names.contains name || hasDuplicates names

end Jingle.Typing

namespace Jingle.Syntax

open Typing

/-- An optional expression, annotated, and its diagnostics. -/
def Expr.checkOption (state : State) : Option Expr → Option Expr × List Diagnostic
  | none => (none, [])
  | some e =>
    let (e, diagnostics) := e.check state
    (some e, diagnostics)

/-- A parameter, annotated, and its diagnostics. -/
def Parameter.check (parameter : Parameter) : Parameter × List Diagnostic :=
  let (typeName, diagnostics) := parameter.typeName.check
  ({ parameter with typeName, ty := typeName.ty }, diagnostics)

/-- Parameters one after another, annotated, and their diagnostics. -/
def Parameter.checkAll : List Parameter → List Parameter × List Diagnostic
  | [] => ([], [])
  | parameter :: parameters =>
    let (parameter, diagnostics) := parameter.check
    let (parameters, others) := Parameter.checkAll parameters
    (parameter :: parameters, diagnostics ++ others)

/-- The name that a parameter declares in the body of its function. -/
def Parameter.symbol (parameter : Parameter) : Symbol :=
  ⟨parameter.name, .param, parameter.ty, parameter.line⟩

namespace Stmt

/-- The declaration of a variable. The name is taken only if its type is known and the initial
value has that type. -/
def checkVar (state : State) (name : String) (typeName : TypeName) (value : Option Expr)
    (info : Info) : Stmt × State × List Diagnostic :=
  match state.scopes.obstacle? name with
  | some violation =>
    (.varDecl name typeName value { info with ty := none }, state, [⟨info.line, violation⟩])
  | none =>
    let (typeName, diagnostics) := typeName.check
    let (value, others) := Expr.checkOption state value
    let verdict := Verdict.ofDeclaration name typeName.ty (value.map Expr.ty)
    match verdict.ty with
    | none =>
      (.varDecl name typeName value { info with ty := none }, state,
        diagnostics ++ others ++ verdict.diagnostics info.line)
    | some ty =>
      match state.declare ⟨name, .var, some ty, info.line⟩ with
      | (state, none) =>
        (.varDecl name typeName value { info with ty := some ty }, state, diagnostics ++ others)
      | (state, some violation) =>
        (.varDecl name typeName value { info with ty := none }, state,
          diagnostics ++ others ++ [⟨info.line, violation⟩])

/-- The declaration of a constant. The name is taken also if the type of the value is not known. -/
def checkConst (state : State) (name : String) (value : Expr) (info : Info) :
    Stmt × State × List Diagnostic :=
  match state.scopes.obstacle? name with
  | some violation =>
    (.constDecl name value { info with ty := none }, state, [⟨info.line, violation⟩])
  | none =>
    let (value, diagnostics) := value.check state
    match state.declare ⟨name, .const, value.ty, info.line⟩ with
    | (state, none) => (.constDecl name value { info with ty := value.ty }, state, diagnostics)
    | (state, some violation) =>
      (.constDecl name value { info with ty := none }, state,
        diagnostics ++ [⟨info.line, violation⟩])

/-- An assignment. -/
def checkAssign (state : State) (target : Location) (value : Expr) (info : Info) :
    Stmt × List Diagnostic :=
  let (target, diagnostics) := target.check state.scopes
  let (value, others) := value.check state
  let verdict := Verdict.ofAssignment state.scopes target.name value.ty
  (.assign target value { info with ty := verdict.ty },
    diagnostics ++ others ++ verdict.diagnostics info.line)

/-- What is known inside of a function: its name, unless it is the name of an earlier function, and
its parameters. -/
def enterFn (state : State) (name : String) (parameters : List Parameter) (returns : Option Ty)
    (line : UInt32) : Except Violation State :=
  (state.scopes.enter name (.ofSymbols (parameters.map Parameter.symbol))).map fun scopes =>
    match state.functions.get? name with
    | some _ => { state with scopes }
    | none =>
      { scopes, functions := state.functions.insert
          ⟨name, line, parameters.map (·.ty), returns⟩ }

/-- The diagnostics of the head of a function and the head with its annotations. -/
def checkHead (state : State) (name : String) (parameters : List Parameter) (returns : TypeName)
    (line : UInt32) : List Parameter × TypeName × List Diagnostic :=
  let earlier := (state.functions.get? name).map fun signature =>
    ⟨line, Violation.functionAlreadyDefined name signature.line⟩
  let (parameters, diagnostics) := Parameter.checkAll parameters
  let repeated : List Diagnostic :=
    if hasDuplicates (parameters.map (·.name)) then [⟨line, .duplicateParameters⟩] else []
  let (returns, others) := returns.check
  (parameters, returns, earlier.toList ++ diagnostics ++ repeated ++ others)

mutual

/-- A statement, checked. -/
def check (state : State) (returns : Option Returns) : Stmt → Outcome Stmt
  | .varDecl name typeName value info =>
    let (stmt, state, diagnostics) := checkVar state name typeName value info
    ⟨stmt, state, returns, diagnostics⟩
  | .constDecl name value info =>
    let (stmt, state, diagnostics) := checkConst state name value info
    ⟨stmt, state, returns, diagnostics⟩
  | .echo value line =>
    let (value, diagnostics) := value.check state
    ⟨.echo value line, state, returns, diagnostics⟩
  | .branch condition ⟨thenLine, thenBody⟩ ⟨elseLine, elseBody⟩ line =>
    let (condition, diagnostics) := condition.check state
    let verdict := Verdict.ofCondition condition.ty
    if verdict.ty.isSome then
      let first := checkAll state returns thenBody
      let second := checkAll first.state first.returns elseBody
      ⟨.branch condition ⟨thenLine, first.tree⟩ ⟨elseLine, second.tree⟩ line,
        second.state, second.returns, diagnostics ++ first.diagnostics ++ second.diagnostics⟩
    else
      ⟨.branch condition ⟨thenLine, thenBody⟩ ⟨elseLine, elseBody⟩ line, state, returns,
        diagnostics ++ verdict.diagnostics line⟩
  | .loop condition ⟨bodyLine, body⟩ line =>
    let (condition, diagnostics) := condition.check state
    let verdict := Verdict.ofCondition condition.ty
    if verdict.ty.isSome then
      let inner := checkAll state returns body
      ⟨.loop condition ⟨bodyLine, inner.tree⟩ line, inner.state, inner.returns,
        diagnostics ++ inner.diagnostics⟩
    else
      ⟨.loop condition ⟨bodyLine, body⟩ line, state, returns,
        diagnostics ++ verdict.diagnostics line⟩
  | .assign target value info =>
    let (stmt, diagnostics) := checkAssign state target value info
    ⟨stmt, state, returns, diagnostics⟩
  | .fnDecl name parameters typeName ⟨bodyLine, body⟩ line =>
    let (parameters, typeName, diagnostics) := checkHead state name parameters typeName line
    match enterFn state name parameters typeName.ty line with
    | .error violation =>
      ⟨.fnDecl name parameters typeName ⟨bodyLine, body⟩ line, state, returns,
        diagnostics ++ [⟨line, violation⟩]⟩
    | .ok inside =>
      let inner := checkAll inside (some { name, expected := typeName.ty }) body
      let verdict := inner.returns.bind Verdict.ofReturns
      ⟨.fnDecl name parameters typeName ⟨bodyLine, inner.tree⟩ line,
        { inner.state with scopes := inner.state.scopes.leave }, returns,
        diagnostics ++ inner.diagnostics ++ verdict.toList.map (⟨line, ·⟩)⟩
  | .ret value info =>
    let (value, diagnostics) := value.check state
    let verdict := Verdict.ofReturn returns value.ty
    ⟨.ret value { info with ty := verdict.ty }, state, returns.map (·.add value.ty),
      diagnostics ++ verdict.diagnostics info.line⟩

/-- Statements in a row, checked one after another. -/
def checkAll (state : State) (returns : Option Returns) : List Stmt → Outcome (List Stmt)
  | [] => ⟨[], state, returns, []⟩
  | stmt :: stmts =>
    let first := stmt.check state returns
    let others := checkAll first.state first.returns stmts
    ⟨first.tree :: others.tree, others.state, others.returns,
      first.diagnostics ++ others.diagnostics⟩

end

end Stmt

/-- A program, checked from the given state. -/
def Block.checkFrom (state : State) (block : Block) : Outcome Block :=
  let outcome := Stmt.checkAll state none block.body
  ⟨⟨block.line, outcome.tree⟩, outcome.state, outcome.returns, outcome.diagnostics⟩

/-- A program, annotated, and its diagnostics. -/
def Block.check (block : Block) : Block × List Diagnostic :=
  let outcome := block.checkFrom .initial
  (outcome.tree, outcome.diagnostics)

end Jingle.Syntax

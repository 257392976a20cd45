import Jingle.Syntax.Basic
import Jingle.Typing.State

/-!
# Types of expressions

Each node of an expression gets the type that follows from the types of its parts, or no type. A
node breaks a rule only if its parts have types: where a part has none, what is wrong with it has
been reported there.

* `Expr.check` annotates an expression and gives its diagnostics, those of the parts of a node
  before that of the node.
-/

namespace Jingle.Typing

open Syntax

/-- What follows for one node: its type, if it has one, and the rule that it breaks, if it breaks
one. -/
structure Verdict where
  ty : Option Ty
  violation : Option Violation := none
  deriving DecidableEq, Repr

namespace Verdict

/-- The node has a type. -/
def typed (ty : Ty) : Verdict :=
  ⟨some ty, none⟩

/-- The node has no type, for a reason that has been reported elsewhere. -/
def absent : Verdict :=
  ⟨none, none⟩

/-- The node breaks a rule and has no type. -/
def broken (violation : Violation) : Verdict :=
  ⟨none, some violation⟩

/-- The diagnostics of a node on a line. -/
def diagnostics (verdict : Verdict) (line : UInt32) : List Diagnostic :=
  verdict.violation.toList.map (⟨line, ·⟩)

/-- The verdict on the name of a type. -/
def ofTypeName (name : String) : Verdict :=
  match Ty.ofName? name with
  | some ty => typed ty
  | none => broken (.invalidType name)

/-- The verdict on a name that is read or written. -/
def ofLocation (scopes : Scopes) (name : String) : Verdict :=
  match scopes.lookup name with
  | .ok symbol => ⟨symbol.ty, none⟩
  | .error violation => broken violation

/-- The verdict on an operation with two operands. -/
def ofBinary (op : BinaryOp) : Option Ty → Option Ty → Verdict
  | some left, some right =>
    match Ty.binary? op left right with
    | some ty => typed ty
    | none => broken (.binaryOperation left.name op.symbol right.name)
  | _, _ => absent

/-- The verdict on an operation with one operand. -/
def ofUnary (op : UnaryOp) : Option Ty → Verdict
  | some operand =>
    match Ty.unary? op operand with
    | some ty => typed ty
    | none => broken (.unaryOperation op.symbol operand.name)
  | none => absent

/-- The types of a list, if none of them is absent. -/
def allTypes? (types : List (Option Ty)) : Option (List Ty) :=
  types.mapM id

/-- The verdict on a call. Parameters and arguments are compared only if all their types are
known. -/
def ofCall (functions : Functions) (callee : String) (arguments : List (Option Ty)) : Verdict :=
  match functions.get? callee with
  | none => broken (.functionNotDeclared callee)
  | some signature =>
    match allTypes? signature.parameters, allTypes? arguments with
    | some expected, some received =>
      if expected = received then ⟨signature.returns, none⟩
      else broken (.argumentMismatch callee (Ty.tuple expected) (Ty.tuple received))
    | _, _ => ⟨signature.returns, none⟩

end Verdict

end Jingle.Typing

namespace Jingle.Syntax

open Typing

/-- The name of a type, annotated, and its diagnostics. -/
def TypeName.check (typeName : TypeName) : TypeName × List Diagnostic :=
  let verdict := Verdict.ofTypeName typeName.name
  ({ typeName with ty := verdict.ty }, verdict.diagnostics typeName.line)

/-- A name that is read or written, annotated, and its diagnostics. -/
def Location.check (scopes : Scopes) (location : Location) : Location × List Diagnostic :=
  let verdict := Verdict.ofLocation scopes location.name
  ({ location with ty := verdict.ty }, verdict.diagnostics location.line)

mutual

/-- An expression, annotated, and its diagnostics. -/
def Expr.check (state : State) : Expr → Expr × List Diagnostic
  | .literal value info => (.literal value { info with ty := value.ty }, [])
  | .binary op left right info =>
    let (left, leftDiagnostics) := left.check state
    let (right, rightDiagnostics) := right.check state
    let verdict := Verdict.ofBinary op left.ty right.ty
    (.binary op left right { info with ty := verdict.ty },
      leftDiagnostics ++ rightDiagnostics ++ verdict.diagnostics info.line)
  | .unary op operand info =>
    let (operand, diagnostics) := operand.check state
    let verdict := Verdict.ofUnary op operand.ty
    (.unary op operand { info with ty := verdict.ty },
      diagnostics ++ verdict.diagnostics info.line)
  | .symbol location info =>
    let (location, diagnostics) := location.check state.scopes
    (.symbol location { info with ty := location.ty }, diagnostics)
  | .call callee arguments info =>
    let (arguments, diagnostics) := Expr.checkAll state arguments
    let verdict := Verdict.ofCall state.functions callee (arguments.map Expr.ty)
    (.call callee arguments { info with ty := verdict.ty },
      diagnostics ++ verdict.diagnostics info.line)

/-- Expressions one after another, annotated, and their diagnostics. -/
def Expr.checkAll (state : State) : List Expr → List Expr × List Diagnostic
  | [] => ([], [])
  | e :: exprs =>
    let (e, diagnostics) := e.check state
    let (exprs, others) := Expr.checkAll state exprs
    (e :: exprs, diagnostics ++ others)

end

end Jingle.Syntax

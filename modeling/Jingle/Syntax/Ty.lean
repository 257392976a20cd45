import Jingle.Syntax.Operator

/-!
# Types

There are five primitive types and no others. An operator takes operands of one and the same type:
nothing is converted.
-/

namespace Jingle.Syntax

/-- The types of the language. -/
inductive Ty where
  | int
  | float
  | char
  | bool
  | string
  deriving DecidableEq, Repr

namespace Ty

/-- All types, in the order in which sets of types are listed. -/
def all : List Ty :=
  [int, float, char, bool, string]

/-- The name of a type in a source. -/
def name : Ty → String
  | int => "int"
  | float => "float"
  | char => "char"
  | bool => "bool"
  | string => "string"

/-- The type with the given name. -/
def ofName? (name : String) : Option Ty :=
  all.find? (·.name = name)

/-- The type of an operation on two operands of the given types, if the operation is defined.
Numbers have arithmetic, everything but truth values is ordered, and truth values have the logical
operators and equality. -/
def binary? (op : BinaryOp) (left right : Ty) : Option Ty :=
  if left ≠ right then none
  else
    match left with
    | int | float =>
      if op.isArithmetic then some left else if op.isRelational then some bool else none
    | char | string => if op.isRelational then some bool else none
    | bool => if op.isLogical || op.isEquality then some bool else none

/-- The type of an operation on one operand of the given type, if the operation is defined. -/
def unary? : UnaryOp → Ty → Option Ty
  | .plus, int | .minus, int => some int
  | .plus, float | .minus, float => some float
  | .not, bool => some bool
  | _, _ => none

/-- A list of types as it is shown. A single type is followed by a comma. -/
def tuple : List Ty → String
  | [] => "()"
  | [ty] => s!"({ty.name},)"
  | types =>
    let names := ", ".intercalate (types.map name)
    s!"({names})"

end Ty

end Jingle.Syntax

import Jingle.Token.Kind

/-!
# Operators
-/

namespace Jingle.Syntax

open Token (Kind)

/-- The operators between two operands. -/
inductive BinaryOp where
  | add
  | subtract
  | multiply
  | divide
  | modulo
  | less
  | lessEquals
  | greater
  | greaterEquals
  | equals
  | notEquals
  | and
  | or
  deriving DecidableEq, Repr

namespace BinaryOp

/-- The operator that a kind of token denotes between two operands. -/
def ofKind? : Kind → Option BinaryOp
  | .plus => some add
  | .dash => some subtract
  | .star => some multiply
  | .slash => some divide
  | .percent => some modulo
  | .less => some less
  | .lessEquals => some lessEquals
  | .greater => some greater
  | .greaterEquals => some greaterEquals
  | .equals => some equals
  | .notEquals => some notEquals
  | .andAnd => some and
  | .orOr => some or
  | _ => none

/-- The operator as it is written. -/
def symbol : BinaryOp → String
  | add => "+"
  | subtract => "-"
  | multiply => "*"
  | divide => "/"
  | modulo => "%"
  | less => "<"
  | lessEquals => "<="
  | greater => ">"
  | greaterEquals => ">="
  | equals => "=="
  | notEquals => "!="
  | and => "&&"
  | or => "||"

/-- Whether the operator computes a number. -/
def isArithmetic : BinaryOp → Bool
  | add | subtract | multiply | divide | modulo => true
  | _ => false

/-- Whether the operator compares for equality. -/
def isEquality : BinaryOp → Bool
  | equals | notEquals => true
  | _ => false

/-- Whether the operator compares. -/
def isRelational : BinaryOp → Bool
  | less | lessEquals | greater | greaterEquals => true
  | op => op.isEquality

/-- Whether the operator connects truth values. -/
def isLogical : BinaryOp → Bool
  | and | or => true
  | _ => false

end BinaryOp

/-- The operators before an operand. -/
inductive UnaryOp where
  | plus
  | minus
  | not
  deriving DecidableEq, Repr

namespace UnaryOp

/-- The operator that a kind of token denotes before an operand. -/
def ofKind? : Kind → Option UnaryOp
  | .plus => some plus
  | .dash => some minus
  | .bang => some not
  | _ => none

/-- The operator as it is written. -/
def symbol : UnaryOp → String
  | plus => "+"
  | minus => "-"
  | not => "!"

end UnaryOp

end Jingle.Syntax

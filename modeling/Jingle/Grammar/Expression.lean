import Jingle.Grammar.Cursor
import Jingle.Grammar.Table
import Jingle.Number.Decimal
import Jingle.Syntax.Basic

/-!
# Reading expressions

An operand is read first. As long as an operator follows that binds more strongly than the place of
the expression demands, the operator takes what has been read as its left operand and reads its
right operand, so that operators of one power group to the left.

The readers of single constructs are given the reader of the expressions in them and a number of
steps for their loops. `Expr.reader` ties them together.
-/

namespace Jingle.Syntax

open Grammar Grammar.Reader

/-- The literal that a token denotes, or what is wrong with the token. -/
def Literal.ofToken (token : Token) : Except Fault.Cause Literal :=
  match token.kind with
  | .integer =>
    match Number.integer? token.value with
    | some value => .ok (.integer value)
    | none => .error (.badNumber token.value)
  | .float =>
    match Number.double? token.value with
    | some value => .ok (.float value)
    | none => .error (.badNumber token.value)
  | .char =>
    match token.value.toList with
    | [value] => .ok (.char value)
    | _ => .error (.badChar token.value)
  | .string => .ok (.string token.value)
  | .bool => .ok (.bool (token.value = "true"))
  | _ => .error (.unexpected token.value)

namespace Expr

section Constructs

variable (expr : Power → Reader Expr) (steps : Nat)

/-- The arguments of a call. The name of the function has been read already. -/
def readCall (callee : Token) : Reader Expr := do
  let arguments ← parenthesised (expr .lowest) steps
  return .call callee.value arguments ⟨callee.line, none⟩

/-- A literal, a name or a call. -/
def readPrimary : Reader Expr := do
  let token ← next
  if token.kind = .identifier then
    if (← kind) = .openParen then
      readCall expr steps token
    else
      return .symbol ⟨⟨token.line, none⟩, token.value⟩ ⟨token.line, none⟩
  else
    match Literal.ofToken token with
    | .ok value => return .literal value ⟨token.line, none⟩
    | .error cause => throw ⟨cause, token.start⟩

/-- An operator and its operand. -/
def readPrefixed : Reader Expr := do
  let token ← next
  match UnaryOp.ofKind? token.kind with
  | some op => return .unary op (← expr .unary) ⟨token.line, none⟩
  | none => throw ⟨.unexpected token.value, token.start⟩

/-- An expression in parentheses. -/
def readGrouped : Reader Expr := do
  let _ ← next
  let inner ← expr .lowest
  let _ ← expect .closeParen
  return inner

/-- An operator and its right operand after the left operand. -/
def readBinary (power : Power) (left : Expr) : Reader Expr := do
  let token ← next
  match BinaryOp.ofKind? token.kind with
  | some op => return .binary op left (← expr power) ⟨token.line, none⟩
  | none => throw ⟨.unexpected token.value, token.start⟩

/-- An operand of the given form. -/
def readForm : OperandForm → Reader Expr
  | .primary => readPrimary expr steps
  | .prefixed => readPrefixed expr
  | .grouped => readGrouped expr

/-- An operand, of the form that the tables give for the current token. -/
def readOperand (tables : Tables) : Reader Expr := do
  match tables.operand? (← kind) with
  | some form => readForm expr steps form
  | none => failFor "expected an expression"

end Constructs

/-- The operators after an operand that bind more strongly than `power`, with their right
operands. -/
def readOperators (tables : Tables) (expr : Power → Reader Expr) (power : Power) :
    Nat → Expr → Reader Expr
  | 0, _ => exhausted
  | steps + 1, left => do
    let following := tables.power (← kind)
    if following ≤ power then
      return left
    else
      let extended ← readBinary expr following left
      readOperators tables expr power steps extended

/-- An expression whose operators bind more strongly than the given power. -/
def reader (tables : Tables) : Nat → Power → Reader Expr
  | 0, _ => exhausted
  | steps + 1, power => do
    let left ← readOperand (reader tables steps) steps tables
    readOperators tables (reader tables steps) power steps left

end Expr

end Jingle.Syntax

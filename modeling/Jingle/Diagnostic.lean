/-!
# Diagnostics

A diagnostic names a rule of the language that a program breaks, and the line on which it does so.
Diagnostics do not stop the checking of a program.
-/

namespace Jingle

/-- The areas of the rules. -/
inductive Violation.Category where
  /-- Names that are unknown, taken, reserved or constant. -/
  | naming
  /-- Types that are unknown or do not fit together. -/
  | typing
  /-- Functions and returns that are out of place. -/
  | structural
  deriving DecidableEq, Repr

/-- The name of an area. -/
def Violation.Category.name : Violation.Category → String
  | naming => "Name"
  | typing => "Type"
  | structural => "Structure"

/-- A rule that is broken, with what it is broken by. Types, operators and lists of types are given
as they are shown. -/
inductive Violation where
  | nameNotDefined (name : String)
  | nameAlreadyDefined (name : String) (line : UInt32)
  | reservedIdentifier (name : String)
  | constantAssignment (name : String)
  | invalidType (name : String)
  | declarationMismatch (name declared assigned : String)
  | assignmentMismatch (name location value : String)
  | binaryOperation (left operator right : String)
  | unaryOperation (operator operand : String)
  | conditionNotBool (found : String)
  | returnTypeMismatch (expected found : String)
  | argumentMismatch (name expected received : String)
  | returnOutsideFunction
  | nestedFunction (name : String)
  | functionAlreadyDefined (name : String) (line : UInt32)
  | functionNotDeclared (name : String)
  | duplicateParameters
  | missingReturn (name : String)
  | tooManyReturnTypes (name : String)
  deriving DecidableEq, Repr

namespace Violation

/-- The name of a rule. -/
def name : Violation → String
  | nameNotDefined .. => "NameNotDefined"
  | nameAlreadyDefined .. => "NameAlreadyDefined"
  | reservedIdentifier .. => "ReservedIdentifier"
  | constantAssignment .. => "ConstantAssignment"
  | invalidType .. => "InvalidType"
  | declarationMismatch .. => "DeclarationMismatch"
  | assignmentMismatch .. => "AssignmentMismatch"
  | binaryOperation .. => "BinaryOperation"
  | unaryOperation .. => "UnaryOperation"
  | conditionNotBool .. => "ConditionNotBool"
  | returnTypeMismatch .. => "ReturnTypeMismatch"
  | argumentMismatch .. => "ArgumentMismatch"
  | returnOutsideFunction => "ReturnOutsideFunction"
  | nestedFunction .. => "NestedFunction"
  | functionAlreadyDefined .. => "FunctionAlreadyDefined"
  | functionNotDeclared .. => "FunctionNotDeclared"
  | duplicateParameters => "DuplicateParameters"
  | missingReturn .. => "MissingReturn"
  | tooManyReturnTypes .. => "TooManyReturnTypes"

/-- The area of a rule. -/
def category : Violation → Category
  | nameNotDefined .. | nameAlreadyDefined .. | reservedIdentifier .. | constantAssignment .. =>
    .naming
  | invalidType .. | declarationMismatch .. | assignmentMismatch .. | binaryOperation ..
  | unaryOperation .. | conditionNotBool .. | returnTypeMismatch .. | argumentMismatch .. =>
    .typing
  | returnOutsideFunction | nestedFunction .. | functionAlreadyDefined .. | functionNotDeclared ..
  | duplicateParameters | missingReturn .. | tooManyReturnTypes .. => .structural

/-- What is wrong, in one sentence. -/
def message : Violation → String
  | nameNotDefined name => s!"Name '{name}' was not defined"
  | nameAlreadyDefined name line => s!"Name '{name}' has already been defined at line {line}"
  | reservedIdentifier name =>
    s!"identifier '{name}' is not allowed for declarations; it is the name of a type"
  | constantAssignment name => s!"Cannot write to constant '{name}'"
  | invalidType name => s!"Invalid type '{name}'"
  | declarationMismatch name declared assigned =>
    s!"Declaring variable '{name}' of type '{declared}' but assigned expression of type '{assigned}'"
  | assignmentMismatch name location value =>
    s!"Cannot assign type '{value}' to variable '{name}' of type '{location}'"
  | binaryOperation left operator right =>
    s!"Binary operation '{left} {operator} {right}' not allowed"
  | unaryOperation operator operand => s!"Unary operation '{operator} {operand}' not allowed"
  | conditionNotBool found => s!"Condition must be of type 'bool' but got type '{found}'"
  | returnTypeMismatch expected found =>
    s!"Function returns '{expected}' but return statement value is of type '{found}'"
  | argumentMismatch name expected received =>
    s!"Function '{name}' expects {expected}, but was called with {received}"
  | returnOutsideFunction => "Return statement must be within a function"
  | nestedFunction name => s!"Illegal nested function declaration '{name}'"
  | functionAlreadyDefined name line => s!"Function '{name}' already defined at line {line}"
  | functionNotDeclared name => s!"Function '{name}' is not declared"
  | duplicateParameters => "Duplicate parameter names at function definition"
  | missingReturn name => s!"Function '{name}' has no return statement"
  | tooManyReturnTypes name => s!"Function '{name}' returns more types than expected!"

end Violation

/-- A rule that is broken on a line of a program. -/
structure Diagnostic where
  line : UInt32
  violation : Violation
  deriving DecidableEq, Repr

namespace Diagnostic

/-- A diagnostic in one sentence, with its area and its line. -/
def message (diagnostic : Diagnostic) : String :=
  s!"[{diagnostic.violation.category.name}] {diagnostic.violation.message}, line {diagnostic.line}"

end Diagnostic

end Jingle

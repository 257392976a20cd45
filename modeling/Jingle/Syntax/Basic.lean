import Jingle.Number.Double
import Jingle.Syntax.Ty

/-!
# Trees

The tree of a program. Every node has the line on which it begins, and most nodes have room for the
type that checking finds for them. Before checking no node has a type.
-/

namespace Jingle.Syntax

/-- What a node has besides its parts. -/
structure Info where
  /-- The line of the node, counted from one. -/
  line : UInt32
  /-- The type that was found for the node. -/
  ty : Option Ty := none
  deriving DecidableEq, Repr

/-- The name of a variable, a constant or a parameter where it is read or written. -/
structure Location extends Info where
  name : String
  deriving DecidableEq, Repr

/-- The name of a type where it is written. -/
structure TypeName extends Info where
  name : String
  deriving DecidableEq, Repr

/-- A parameter of a function. -/
structure Parameter extends Info where
  name : String
  typeName : TypeName
  deriving DecidableEq, Repr

/-- A value that is written out. -/
inductive Literal where
  | integer (value : Int)
  | float (value : Number.Double)
  | char (value : Char)
  | string (value : String)
  | bool (value : Bool)
  deriving DecidableEq, Repr

namespace Literal

/-- The type of a literal. -/
def ty : Literal → Ty
  | integer _ => .int
  | float _ => .float
  | char _ => .char
  | string _ => .string
  | bool _ => .bool

end Literal

/-- An expression. -/
inductive Expr where
  | literal (value : Literal) (info : Info)
  | binary (op : BinaryOp) (left right : Expr) (info : Info)
  | unary (op : UnaryOp) (operand : Expr) (info : Info)
  | symbol (location : Location) (info : Info)
  | call (callee : String) (arguments : List Expr) (info : Info)

namespace Expr

/-- The line and the type of an expression. -/
def info : Expr → Info
  | literal _ info | binary _ _ _ info | unary _ _ info | symbol _ info | call _ _ info => info

/-- The line of an expression. -/
def line (expr : Expr) : UInt32 :=
  expr.info.line

/-- The type that was found for an expression. -/
def ty (expr : Expr) : Option Ty :=
  expr.info.ty

end Expr

mutual

/-- A statement. -/
inductive Stmt where
  | varDecl (name : String) (typeName : TypeName) (value : Option Expr) (info : Info)
  | constDecl (name : String) (value : Expr) (info : Info)
  | echo (value : Expr) (line : UInt32)
  | branch (condition : Expr) (thenBody elseBody : Block) (line : UInt32)
  | loop (condition : Expr) (body : Block) (line : UInt32)
  | assign (target : Location) (value : Expr) (info : Info)
  | fnDecl (name : String) (parameters : List Parameter) (returns : TypeName) (body : Block)
    (line : UInt32)
  | ret (value : Expr) (info : Info)

/-- Statements in a row. -/
structure Block where
  line : UInt32
  body : List Stmt

end

namespace Stmt

/-- The line of a statement. -/
def line : Stmt → UInt32
  | varDecl _ _ _ info | constDecl _ _ info | assign _ _ info | ret _ info => info.line
  | echo _ line | branch _ _ _ line | loop _ _ line | fnDecl _ _ _ _ line => line

/-- The type that was found for a statement. Only statements with a value of their own have one. -/
def ty : Stmt → Option Ty
  | varDecl _ _ _ info | constDecl _ _ info | assign _ _ info | ret _ info => info.ty
  | echo .. | branch .. | loop .. | fnDecl .. => none

end Stmt

end Jingle.Syntax

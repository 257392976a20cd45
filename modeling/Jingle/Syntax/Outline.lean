import Jingle.Number.Shortest
import Jingle.Text.Quoted
import Jingle.Syntax.Basic

/-!
# Outlines

The outline of a program lists its nodes one by one, each before its parts and the parts in the
order of the source, with the number of nodes above each.

* `Block.outline` gives the outline of a block and `Block.blocks` the blocks in it.
-/

namespace Jingle.Syntax

open Text (quoted quotedChar)

/-- A node of any sort. -/
inductive Node where
  | stmt (stmt : Stmt)
  | expr (expr : Expr)
  | location (location : Location)
  | typeName (typeName : TypeName)
  | parameter (parameter : Parameter)

namespace Node

/-- The line of a node. -/
def line : Node → UInt32
  | stmt s => s.line
  | expr e => e.line
  | location l => l.line
  | typeName a => a.line
  | parameter p => p.line

/-- The type that was found for a node. -/
def ty : Node → Option Ty
  | stmt s => s.ty
  | expr e => e.ty
  | location l => l.ty
  | typeName a => a.ty
  | parameter p => p.ty

end Node

/-! ## Labels -/

/-- The label of a literal. -/
def Literal.label : Literal → String
  | integer value => s!"IntegerExpr(value={value})"
  | float value => s!"FloatExpr(value={value.text})"
  | char value => s!"CharExpr(value={quotedChar value})"
  | string value => s!"StringExpr(value={quoted value})"
  | bool value => s!"BoolExpr(value={value})"

/-- The label of an expression. -/
def Expr.label : Expr → String
  | literal value _ => value.label
  | binary op _ _ _ => s!"BinaryExpr(operator={quoted op.symbol})"
  | unary op _ _ => s!"PrefixExpr(operator={quoted op.symbol})"
  | symbol _ _ => "SymbolExpr"
  | call callee _ _ => s!"CallExpr(name={quoted callee})"

/-- The label of a statement. -/
def Stmt.label : Stmt → String
  | varDecl name _ _ _ => s!"VarDeclStmt(name={quoted name})"
  | constDecl name _ _ => s!"ConstDeclStmt(name={quoted name})"
  | echo .. => "EchoStmt"
  | branch .. => "IfStmt"
  | loop .. => "WhileStmt"
  | assign .. => "AssignmentStmt"
  | fnDecl name _ _ _ _ => s!"FnDeclStmt(name={quoted name})"
  | ret .. => "ReturnStmt"

/-- What a node is, with what tells it from others of its sort. -/
def Node.label : Node → String
  | stmt s => s.label
  | expr e => e.label
  | location l => s!"Location(name={quoted l.name})"
  | typeName a => s!"SymbolType(name={quoted a.name})"
  | parameter p => s!"FnParameter(name={quoted p.name})"

/-! ## Listing the nodes -/

/-- Nodes with the number of nodes above each of them. -/
abbrev Outline := List (Nat × Node)

mutual

/-- The outline of an expression. -/
def Expr.outline (depth : Nat) : Expr → Outline
  | e@(.literal ..) => [(depth, .expr e)]
  | e@(.binary _ left right _) =>
    (depth, .expr e) :: (left.outline (depth + 1) ++ right.outline (depth + 1))
  | e@(.unary _ operand _) => (depth, .expr e) :: operand.outline (depth + 1)
  | e@(.symbol location _) => [(depth, .expr e), (depth + 1, .location location)]
  | e@(.call _ arguments _) => (depth, .expr e) :: Expr.outlines (depth + 1) arguments

/-- The outlines of expressions one after another. -/
def Expr.outlines (depth : Nat) : List Expr → Outline
  | [] => []
  | e :: exprs => e.outline depth ++ Expr.outlines depth exprs

end

/-- The outline of a parameter. -/
def Parameter.outline (depth : Nat) (parameter : Parameter) : Outline :=
  [(depth, .parameter parameter), (depth + 1, .typeName parameter.typeName)]

mutual

/-- The outline of a statement. -/
def Stmt.outline (depth : Nat) : Stmt → Outline
  | s@(.varDecl _ typeName value _) =>
    (depth, .stmt s) :: (depth + 1, .typeName typeName) ::
      (match value with
        | some e => e.outline (depth + 1)
        | none => [])
  | s@(.constDecl _ value _) => (depth, .stmt s) :: value.outline (depth + 1)
  | s@(.echo value _) => (depth, .stmt s) :: value.outline (depth + 1)
  | s@(.branch condition ⟨_, thenBody⟩ ⟨_, elseBody⟩ _) =>
    (depth, .stmt s) :: (condition.outline (depth + 1) ++
      Stmt.outlines (depth + 1) thenBody ++ Stmt.outlines (depth + 1) elseBody)
  | s@(.loop condition ⟨_, body⟩ _) =>
    (depth, .stmt s) :: (condition.outline (depth + 1) ++ Stmt.outlines (depth + 1) body)
  | s@(.assign target value _) =>
    (depth, .stmt s) :: (depth + 1, .location target) :: value.outline (depth + 1)
  | s@(.fnDecl _ parameters returns ⟨_, body⟩ _) =>
    (depth, .stmt s) :: (parameters.flatMap (Parameter.outline (depth + 1)) ++
      (depth + 1, .typeName returns) :: Stmt.outlines (depth + 1) body)
  | s@(.ret value _) => (depth, .stmt s) :: value.outline (depth + 1)

/-- The outlines of statements one after another. -/
def Stmt.outlines (depth : Nat) : List Stmt → Outline
  | [] => []
  | s :: stmts => s.outline depth ++ Stmt.outlines depth stmts

end

/-- The outline of a block. The statements of the block itself have no node above them. -/
def Block.outline (block : Block) : Outline :=
  Stmt.outlines 0 block.body

/-! ## Listing the blocks -/

mutual

/-- The blocks of a statement, each before the blocks in it. -/
def Stmt.blocks : Stmt → List Block
  | .branch _ ⟨thenLine, thenBody⟩ ⟨elseLine, elseBody⟩ _ =>
    ⟨thenLine, thenBody⟩ :: Stmt.blocksAll thenBody ++
      ⟨elseLine, elseBody⟩ :: Stmt.blocksAll elseBody
  | .loop _ ⟨line, body⟩ _ => ⟨line, body⟩ :: Stmt.blocksAll body
  | .fnDecl _ _ _ ⟨line, body⟩ _ => ⟨line, body⟩ :: Stmt.blocksAll body
  | .varDecl .. | .constDecl .. | .echo .. | .assign .. | .ret .. => []

/-- The blocks of statements one after another. -/
def Stmt.blocksAll : List Stmt → List Block
  | [] => []
  | s :: stmts => s.blocks ++ Stmt.blocksAll stmts

end

/-- A block and the blocks in it, each before the blocks in it. -/
def Block.blocks (block : Block) : List Block :=
  block :: Stmt.blocksAll block.body

end Jingle.Syntax

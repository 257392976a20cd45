import Jingle.Number.Decimal
import Jingle.Number.Integer
import Jingle.Syntax.Basic
import Jingle.Token.Basic

/-!
# The grammar of the language

The grammar says which tokens make which tree, without saying how to read them. Expressions form
strata by the power of their operators. An expression of a stratum is a chain of operands of the
next stratum with operators of its own between them, and the tree of a chain nests to the left.
Parentheses leave no trace in the tree.

* `ExprIn stratum tokens e` says that tokens make an expression of a stratum.
* `StmtIn tokens s` says that tokens make a statement.
* `ProgramIn tokens block` says that tokens make a program.
-/

namespace Jingle.Grammar

open Syntax
open Token (Kind)

/-- The tokens of items with commas between them, at least one. -/
inductive Separated {α : Type} (item : List Token → α → Prop) : List Token → List α → Prop where
  | last {tokens : List Token} {a : α} : item tokens a → Separated item tokens [a]
  | more {tokens others : List Token} {comma : Token} {a : α} {as : List α} :
      item tokens a → comma.kind = .comma → Separated item others as →
      Separated item (tokens ++ comma :: others) (a :: as)

/-- The tokens of items in parentheses with commas between them. -/
inductive Parenthesised {α : Type} (item : List Token → α → Prop) : List Token → List α → Prop where
  | none {opening closing : Token} : opening.kind = .openParen → closing.kind = .closeParen →
      Parenthesised item [opening, closing] []
  | some {opening closing : Token} {tokens : List Token} {as : List α} :
      opening.kind = .openParen → Separated item tokens as → closing.kind = .closeParen →
      Parenthesised item (opening :: (tokens ++ [closing])) as

/-! ## Expressions -/

/-- The token of a literal. -/
inductive LiteralIn : Token → Literal → Prop where
  | integer {token : Token} {value : Int} : token.kind = .integer →
      Number.integer? token.value = some value → LiteralIn token (.integer value)
  | float {token : Token} {value : Number.Double} : token.kind = .float →
      Number.double? token.value = some value → LiteralIn token (.float value)
  | char {token : Token} {value : Char} : token.kind = .char →
      token.value.toList = [value] → LiteralIn token (.char value)
  | string {token : Token} : token.kind = .string → LiteralIn token (.string token.value)
  | bool {token : Token} : token.kind = .bool → LiteralIn token (.bool (token.value = "true"))

/-- The strata of expressions, from the weakest operators to the strongest. -/
inductive Stratum where
  | logical
  | relational
  | additive
  | multiplicative
  | unary
  deriving DecidableEq, Repr

namespace Stratum

/-- The stratum of the operands in the chains of a stratum. -/
def operand : Stratum → Stratum
  | logical => relational
  | relational => additive
  | additive => multiplicative
  | multiplicative => unary
  | unary => unary

/-- The operators in the chains of a stratum. -/
def operator? : Stratum → Kind → Option BinaryOp
  | logical, .andAnd => some .and
  | logical, .orOr => some .or
  | relational, .less => some .less
  | relational, .lessEquals => some .lessEquals
  | relational, .greater => some .greater
  | relational, .greaterEquals => some .greaterEquals
  | relational, .equals => some .equals
  | relational, .notEquals => some .notEquals
  | additive, .plus => some .add
  | additive, .dash => some .subtract
  | multiplicative, .star => some .multiply
  | multiplicative, .slash => some .divide
  | multiplicative, .percent => some .modulo
  | _, _ => none

end Stratum

mutual

/-- The tokens of an expression of a stratum. -/
inductive ExprIn : Stratum → List Token → Expr → Prop where
  | chain {stratum : Stratum} {first others : List Token} {left tree : Expr} :
      stratum ≠ .unary → ExprIn stratum.operand first left → ChainIn stratum left others tree →
      ExprIn stratum (first ++ others) tree
  | prefixed {token : Token} {tokens : List Token} {op : UnaryOp} {operand : Expr} :
      UnaryOp.ofKind? token.kind = some op → ExprIn .unary tokens operand →
      ExprIn .unary (token :: tokens) (.unary op operand ⟨token.line, none⟩)
  | literal {token : Token} {value : Literal} : LiteralIn token value →
      ExprIn .unary [token] (.literal value ⟨token.line, none⟩)
  | symbol {token : Token} : token.kind = .identifier →
      ExprIn .unary [token] (.symbol ⟨⟨token.line, none⟩, token.value⟩ ⟨token.line, none⟩)
  | call {token : Token} {tokens : List Token} {arguments : List Expr} :
      token.kind = .identifier → Parenthesised (ExprIn .logical) tokens arguments →
      ExprIn .unary (token :: tokens) (.call token.value arguments ⟨token.line, none⟩)
  | grouped {opening closing : Token} {tokens : List Token} {e : Expr} :
      opening.kind = .openParen → ExprIn .logical tokens e → closing.kind = .closeParen →
      ExprIn .unary (opening :: (tokens ++ [closing])) e

/-- The tokens that continue a chain after an operand, and the tree of the chain. -/
inductive ChainIn : Stratum → Expr → List Token → Expr → Prop where
  | nil {stratum : Stratum} {left : Expr} : ChainIn stratum left [] left
  | cons {stratum : Stratum} {token : Token} {tokens others : List Token} {op : BinaryOp}
      {left right tree : Expr} :
      stratum.operator? token.kind = some op → ExprIn stratum.operand tokens right →
      ChainIn stratum (.binary op left right ⟨token.line, none⟩) others tree →
      ChainIn stratum left (token :: (tokens ++ others)) tree

end

/-! ## Statements -/

/-- The token of the name of a type. -/
inductive TypeNameIn : Token → TypeName → Prop where
  | name {token : Token} : token.kind = .identifier →
      TypeNameIn token ⟨⟨token.line, none⟩, token.value⟩

/-- The tokens of a parameter. -/
inductive ParameterIn : List Token → Parameter → Prop where
  | parameter {name colon type : Token} {typeName : TypeName} :
      name.kind = .identifier → colon.kind = .colon → TypeNameIn type typeName →
      ParameterIn [name, colon, type] ⟨⟨name.line, none⟩, name.value, typeName⟩

mutual

/-- The tokens of a statement. -/
inductive StmtIn : List Token → Stmt → Prop where
  | varDecl {start name colon type semicolon : Token} {typeName : TypeName} :
      start.kind = .varWord → name.kind = .identifier → colon.kind = .colon →
      TypeNameIn type typeName → semicolon.kind = .semicolon →
      StmtIn [start, name, colon, type, semicolon]
        (.varDecl name.value typeName none ⟨start.line, none⟩)
  | varDeclTo {start name colon type equals semicolon : Token} {tokens : List Token}
      {typeName : TypeName} {value : Expr} :
      start.kind = .varWord → name.kind = .identifier → colon.kind = .colon →
      TypeNameIn type typeName → equals.kind = .assign → ExprIn .logical tokens value →
      semicolon.kind = .semicolon →
      StmtIn (start :: name :: colon :: type :: equals :: (tokens ++ [semicolon]))
        (.varDecl name.value typeName (some value) ⟨start.line, none⟩)
  | constDecl {start name equals semicolon : Token} {tokens : List Token} {value : Expr} :
      start.kind = .constWord → name.kind = .identifier → equals.kind = .assign →
      ExprIn .logical tokens value → semicolon.kind = .semicolon →
      StmtIn (start :: name :: equals :: (tokens ++ [semicolon]))
        (.constDecl name.value value ⟨start.line, none⟩)
  | echo {start semicolon : Token} {tokens : List Token} {value : Expr} :
      start.kind = .echoWord → ExprIn .logical tokens value → semicolon.kind = .semicolon →
      StmtIn (start :: (tokens ++ [semicolon])) (.echo value start.line)
  | branch {tokens : List Token} {stmt : Stmt} : BranchIn tokens stmt → StmtIn tokens stmt
  | loop {start : Token} {tokens others : List Token} {condition : Expr} {body : Block} :
      start.kind = .whileWord → ExprIn .logical tokens condition → BlockIn others body →
      StmtIn (start :: (tokens ++ others)) (.loop condition body start.line)
  | fnDecl {start name arrow type : Token} {tokens others : List Token}
      {parameters : List Parameter} {typeName : TypeName} {body : Block} :
      start.kind = .fnWord → name.kind = .identifier →
      Parenthesised ParameterIn tokens parameters → arrow.kind = .arrow →
      TypeNameIn type typeName → BlockIn others body →
      StmtIn (start :: name :: (tokens ++ arrow :: type :: others))
        (.fnDecl name.value parameters typeName body start.line)
  | ret {start semicolon : Token} {tokens : List Token} {value : Expr} :
      start.kind = .returnWord → ExprIn .logical tokens value → semicolon.kind = .semicolon →
      StmtIn (start :: (tokens ++ [semicolon])) (.ret value ⟨start.line, none⟩)
  | assign {target equals semicolon : Token} {tokens : List Token} {value : Expr} :
      target.kind = .identifier → equals.kind = .assign → ExprIn .logical tokens value →
      semicolon.kind = .semicolon →
      StmtIn (target :: equals :: (tokens ++ [semicolon]))
        (.assign ⟨⟨target.line, none⟩, target.value⟩ value ⟨target.line, none⟩)

/-- The tokens of a branch. -/
inductive BranchIn : List Token → Stmt → Prop where
  | branch {start : Token} {tokens thenTokens elseTokens : List Token} {condition : Expr}
      {thenBody elseBody : Block} :
      start.kind = .ifWord → ExprIn .logical tokens condition → BlockIn thenTokens thenBody →
      ElseIn start.line elseTokens elseBody →
      BranchIn (start :: (tokens ++ (thenTokens ++ elseTokens)))
        (.branch condition thenBody elseBody start.line)

/-- The tokens of the other block of a branch on the given line. Without tokens the block is empty,
and a branch right after `else` is its only statement. -/
inductive ElseIn : UInt32 → List Token → Block → Prop where
  | missing {line : UInt32} : ElseIn line [] ⟨line, []⟩
  | block {line : UInt32} {start : Token} {tokens : List Token} {body : Block} :
      start.kind = .elseWord → BlockIn tokens body → ElseIn line (start :: tokens) body
  | branch {line : UInt32} {start : Token} {tokens : List Token} {stmt : Stmt} :
      start.kind = .elseWord → BranchIn tokens stmt →
      ElseIn line (start :: tokens) ⟨stmt.line, [stmt]⟩

/-- The tokens of a block. -/
inductive BlockIn : List Token → Block → Prop where
  | block {opening closing : Token} {tokens : List Token} {body : List Stmt} :
      opening.kind = .openCurly → StmtsIn tokens body → closing.kind = .closeCurly →
      BlockIn (opening :: (tokens ++ [closing])) ⟨opening.line, body⟩

/-- The tokens of statements one after another. -/
inductive StmtsIn : List Token → List Stmt → Prop where
  | nil : StmtsIn [] []
  | cons {tokens others : List Token} {stmt : Stmt} {stmts : List Stmt} :
      StmtIn tokens stmt → StmtsIn others stmts → StmtsIn (tokens ++ others) (stmt :: stmts)

end

/-- The tokens of a program. -/
inductive ProgramIn : List Token → Block → Prop where
  | program {tokens : List Token} {body : List Stmt} : StmtsIn tokens body →
      ProgramIn tokens ⟨1, body⟩

end Jingle.Grammar

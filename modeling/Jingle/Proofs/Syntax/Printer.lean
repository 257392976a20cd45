import Jingle.Proofs.Grammar.Expression
import Jingle.Proofs.Syntax.Tree
import Jingle.Proofs.Token.Lexeme

/-!
# Printing programs

A program is printed as its lexemes with single spaces between them. An operand stands in
parentheses exactly if it is an operation that would otherwise be read apart: one that binds less
strongly than the operator after it, not more strongly than the operator before it, or any
operation between two operands after an operator with one operand.

* `Block.print` prints a program.
* `Node.Writable` says which nodes can be printed and read back.
-/

namespace Jingle.Syntax

open Grammar
open Token (Kind Lexeme isName)

/-! ## Operators -/

/-- The kind of the token of an operator between two operands. -/
def BinaryOp.kind : BinaryOp → Kind
  | add => .plus
  | subtract => .dash
  | multiply => .star
  | divide => .slash
  | modulo => .percent
  | less => .less
  | lessEquals => .lessEquals
  | greater => .greater
  | greaterEquals => .greaterEquals
  | equals => .equals
  | notEquals => .notEquals
  | and => .andAnd
  | or => .orOr

/-- The stratum in whose chains an operator stands. -/
def BinaryOp.stratum : BinaryOp → Stratum
  | and | or => .logical
  | less | lessEquals | greater | greaterEquals | equals | notEquals => .relational
  | add | subtract => .additive
  | multiply | divide | modulo => .multiplicative

/-- The kind of the token of an operator before an operand. -/
def UnaryOp.kind : UnaryOp → Kind
  | plus => .plus
  | minus => .dash
  | not => .bang

/-! ## Lexemes of trees -/

/-- The lexeme of a literal. -/
def Literal.lexeme : Literal → Lexeme
  | integer value => ⟨.integer, toString value⟩
  | float value => ⟨.float, value.text⟩
  | char value => ⟨.char, String.singleton value⟩
  | string value => ⟨.string, value⟩
  | bool value => ⟨.bool, toString value⟩

/-- The lexemes of an operand, in parentheses or without them. -/
def enclosed (inParentheses : Bool) (lexemes : List Lexeme) : List Lexeme :=
  if inParentheses then .mark .openParen :: (lexemes ++ [.mark .closeParen]) else lexemes

/-- The lexemes of items in parentheses with commas between them. -/
def listed (items : List (List Lexeme)) : List Lexeme :=
  .mark .openParen :: ([.mark .comma].intercalate items ++ [.mark .closeParen])

/-- The lexemes of statements in braces. -/
def braced (lexemes : List Lexeme) : List Lexeme :=
  .mark .openCurly :: (lexemes ++ [.mark .closeCurly])

/-- The stratum of an expression without parentheses around it. -/
def Expr.stratum : Expr → Stratum
  | .binary op _ _ _ => op.stratum
  | _ => .unary

mutual

/-- The lexemes of an expression. -/
def Expr.lexemes : Expr → List Lexeme
  | .literal value _ => [value.lexeme]
  | .binary op left right _ =>
    let rank := op.stratum.power.rank
    enclosed (left.stratum.power.rank < rank) left.lexemes ++
      .mark op.kind :: enclosed (right.stratum.power.rank ≤ rank) right.lexemes
  | .unary op operand _ =>
    .mark op.kind :: enclosed (operand.stratum ≠ .unary) operand.lexemes
  | .symbol location _ => [.name location.name]
  | .call callee arguments _ => .name callee :: listed (Expr.lexemesOf arguments)

/-- The lexemes of each of the given expressions. -/
def Expr.lexemesOf : List Expr → List (List Lexeme)
  | [] => []
  | e :: exprs => e.lexemes :: Expr.lexemesOf exprs

end

theorem Expr.lexemesOf_eq_map (exprs : List Expr) :
    Expr.lexemesOf exprs = exprs.map Expr.lexemes := by
  induction exprs with
  | nil => rfl
  | cons e exprs ih => rw [Expr.lexemesOf, ih, List.map_cons]

/-- The lexemes of a parameter. -/
def Parameter.lexemes (parameter : Parameter) : List Lexeme :=
  [.name parameter.name, .mark .colon, .name parameter.typeName.name]

mutual

/-- The lexemes of a statement. -/
def Stmt.lexemes : Stmt → List Lexeme
  | .varDecl name typeName none _ =>
    [.mark .varWord, .name name, .mark .colon, .name typeName.name, .mark .semicolon]
  | .varDecl name typeName (some value) _ =>
    .mark .varWord :: .name name :: .mark .colon :: .name typeName.name :: .mark .assign ::
      (value.lexemes ++ [.mark .semicolon])
  | .constDecl name value _ =>
    .mark .constWord :: .name name :: .mark .assign :: (value.lexemes ++ [.mark .semicolon])
  | .echo value _ => .mark .echoWord :: (value.lexemes ++ [.mark .semicolon])
  | .branch condition ⟨_, thenBody⟩ ⟨_, elseBody⟩ _ =>
    .mark .ifWord :: (condition.lexemes ++ (braced (Stmt.lexemesOf thenBody) ++
      if elseBody.isEmpty then [] else .mark .elseWord :: braced (Stmt.lexemesOf elseBody)))
  | .loop condition ⟨_, body⟩ _ =>
    .mark .whileWord :: (condition.lexemes ++ braced (Stmt.lexemesOf body))
  | .assign target value _ =>
    .name target.name :: .mark .assign :: (value.lexemes ++ [.mark .semicolon])
  | .fnDecl name parameters returns ⟨_, body⟩ _ =>
    .mark .fnWord :: .name name :: (listed (parameters.map Parameter.lexemes) ++
      .mark .arrow :: .name returns.name :: braced (Stmt.lexemesOf body))
  | .ret value _ => .mark .returnWord :: (value.lexemes ++ [.mark .semicolon])

/-- The lexemes of statements one after another. -/
def Stmt.lexemesOf : List Stmt → List Lexeme
  | [] => []
  | s :: stmts => s.lexemes ++ Stmt.lexemesOf stmts

end

/-- A program as it is printed. -/
def Block.print (block : Block) : String :=
  String.ofList (Lexeme.join (Stmt.lexemesOf block.body))

/-! ## Trees that can be printed -/

/-- A literal that can be read back: no float, and no integer that would need a sign or more than
64 bits. -/
def Literal.Writable : Literal → Prop
  | integer value => 0 ≤ value ∧ value ≤ Int64.maxValue.toInt
  | float _ => False
  | char _ | string _ | bool _ => True

instance : DecidablePred Literal.Writable
  | .integer value => inferInstanceAs (Decidable (0 ≤ value ∧ value ≤ Int64.maxValue.toInt))
  | .float _ => inferInstanceAs (Decidable False)
  | .char _ | .string _ | .bool _ => inferInstanceAs (Decidable True)

/-- A node that can be read back, as far as it is not made of other nodes. -/
def Node.Writable : Node → Prop
  | stmt (.varDecl name _ _ _) => isName name
  | stmt (.constDecl name _ _) => isName name
  | stmt (.fnDecl name _ _ _ _) => isName name
  | stmt _ => True
  | expr (.literal value _) => value.Writable
  | expr (.call callee _ _) => isName callee
  | expr _ => True
  | location l => isName l.name
  | typeName a => isName a.name
  | parameter p => isName p.name

instance : DecidablePred Node.Writable
  | .stmt (.varDecl name _ _ _) => inferInstanceAs (Decidable (isName name))
  | .stmt (.constDecl name _ _) => inferInstanceAs (Decidable (isName name))
  | .stmt (.fnDecl name _ _ _ _) => inferInstanceAs (Decidable (isName name))
  | .stmt (.echo ..) | .stmt (.branch ..) | .stmt (.loop ..) | .stmt (.assign ..) | .stmt (.ret ..)
  | .expr (.binary ..) | .expr (.unary ..) | .expr (.symbol ..) => inferInstanceAs (Decidable True)
  | .expr (.literal value _) => inferInstanceAs (Decidable value.Writable)
  | .expr (.call callee _ _) => inferInstanceAs (Decidable (isName callee))
  | .location l => inferInstanceAs (Decidable (isName l.name))
  | .typeName a => inferInstanceAs (Decidable (isName a.name))
  | .parameter p => inferInstanceAs (Decidable (isName p.name))

end Jingle.Syntax

import Jingle.Token.Kind

/-!
# Tables of the grammar

Which construct begins with which kind of token, and how strongly an operator binds its operands,
is kept in tables. The standard tables are those of the language, and every entry can be changed.
-/

namespace Jingle.Grammar

open Token (Kind)

/-- How strongly an operator binds its operands, from the weakest to the strongest. -/
inductive Power where
  | lowest
  | logical
  | relational
  | additive
  | multiplicative
  | unary
  deriving DecidableEq, Repr

namespace Power

/-- The place of a power in the order of powers. -/
def rank : Power → Nat
  | lowest => 0
  | logical => 1
  | relational => 2
  | additive => 3
  | multiplicative => 4
  | unary => 5

instance : LE Power :=
  ⟨fun a b => a.rank ≤ b.rank⟩

instance (a b : Power) : Decidable (a ≤ b) :=
  inferInstanceAs (Decidable (a.rank ≤ b.rank))

end Power

/-- The ways in which an operand is read. -/
inductive OperandForm where
  /-- A literal, a name or a call. -/
  | primary
  /-- An operator and its operand. -/
  | prefixed
  /-- An expression in parentheses. -/
  | grouped
  deriving DecidableEq, Repr

/-- The ways in which a statement is read. -/
inductive StmtForm where
  /-- As the table says for the current token. -/
  | any
  | varDecl
  | constDecl
  | echo
  | branch
  | loop
  | fnDecl
  | ret
  | assign
  deriving DecidableEq, Repr

/-- The tables of a grammar. -/
structure Tables where
  /-- The statement that begins with a kind of token. -/
  stmt? : Kind → Option StmtForm
  /-- The operand that begins with a kind of token. -/
  operand? : Kind → Option OperandForm
  /-- The power of a kind of token between two operands. -/
  power? : Kind → Option Power

namespace Tables

/-- Tables without entries. -/
def empty : Tables :=
  ⟨fun _ => none, fun _ => none, fun _ => none⟩

/-- The power of a kind of token between two operands. Kinds without an entry do not bind. -/
def power (tables : Tables) (kind : Kind) : Power :=
  (tables.power? kind).getD .lowest

/-- Tables with a new entry for a statement. -/
def setStmt (tables : Tables) (kind : Kind) (form : StmtForm) : Tables :=
  { tables with stmt? := fun k => if k = kind then some form else tables.stmt? k }

/-- Tables with a new entry for an operand. -/
def setOperand (tables : Tables) (kind : Kind) (form : OperandForm) : Tables :=
  { tables with operand? := fun k => if k = kind then some form else tables.operand? k }

/-- Tables with a new entry for an operator between two operands. -/
def setPower (tables : Tables) (kind : Kind) (power : Power) : Tables :=
  { tables with power? := fun k => if k = kind then some power else tables.power? k }

/-- The tables of the language. -/
def standard : Tables where
  stmt?
    | .varWord => some .varDecl
    | .constWord => some .constDecl
    | .echoWord => some .echo
    | .ifWord => some .branch
    | .whileWord => some .loop
    | .fnWord => some .fnDecl
    | .returnWord => some .ret
    | .identifier => some .assign
    | _ => none
  operand?
    | .integer | .float | .char | .string | .bool | .identifier => some .primary
    | .dash | .plus | .bang => some .prefixed
    | .openParen => some .grouped
    | _ => none
  power?
    | .andAnd | .orOr => some .logical
    | .less | .lessEquals | .greater | .greaterEquals | .equals | .notEquals => some .relational
    | .plus | .dash => some .additive
    | .star | .slash | .percent => some .multiplicative
    | _ => none

end Tables

end Jingle.Grammar

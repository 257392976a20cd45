import Jingle.Diagnostic
import Jingle.Syntax.Ty

/-!
# Scopes

A scope holds the names of one layer of a program. There is a layer of global names and, inside of
a function, a layer of the function's own names, which is looked at first. A declaration of a name
that is visible in either layer is refused.
-/

namespace Jingle.Typing

open Syntax (Ty)

/-- The sorts of names. -/
inductive SymbolKind where
  | var
  | const
  | param
  deriving DecidableEq, Repr

/-- What is known about a name. -/
structure Symbol where
  name : String
  kind : SymbolKind
  /-- The type, unless the declaration does not tell. -/
  ty : Option Ty
  /-- The line of the declaration. -/
  line : UInt32
  deriving DecidableEq, Repr

/-- Whether a name cannot be written to. -/
def Symbol.isConstant (symbol : Symbol) : Bool :=
  symbol.kind = .const

/-- The names of one layer, the latest first. -/
structure Scope where
  symbols : List Symbol
  deriving DecidableEq, Repr

namespace Scope

/-- The scope without names. -/
def empty : Scope :=
  ⟨[]⟩

/-- What is known about a name in the scope. -/
def get? (scope : Scope) (name : String) : Option Symbol :=
  scope.symbols.find? (·.name = name)

/-- The number of names. -/
def size (scope : Scope) : Nat :=
  scope.symbols.length

/-- The scope with one more symbol. -/
def insert (scope : Scope) (symbol : Symbol) : Scope :=
  ⟨symbol :: scope.symbols⟩

/-- The scope of the given symbols. Of symbols with one name the first counts. -/
def ofSymbols (symbols : List Symbol) : Scope :=
  symbols.foldl (fun scope symbol =>
    if (scope.get? symbol.name).isSome then scope else scope.insert symbol) empty

/-- The scope with a name declared in it, unless the name is taken. -/
def declare (scope : Scope) (symbol : Symbol) : Except Violation Scope :=
  match scope.get? symbol.name with
  | some existing => .error (.nameAlreadyDefined symbol.name existing.line)
  | none => .ok (scope.insert symbol)

end Scope

/-- The layers of names. -/
structure Scopes where
  globals : Scope
  /-- The names of the function whose body is being checked. -/
  function? : Option Scope
  deriving DecidableEq, Repr

namespace Scopes

/-- The layers at the beginning of a program. -/
def empty : Scopes :=
  ⟨.empty, none⟩

/-- Whether there is a layer of a function. -/
def inFunction (scopes : Scopes) : Bool :=
  scopes.function?.isSome

/-- The number of layers. -/
def depth (scopes : Scopes) : Nat :=
  if scopes.inFunction then 2 else 1

/-- What is known about a visible name. -/
def resolve? (scopes : Scopes) (name : String) : Option Symbol :=
  (scopes.function?.bind (·.get? name)).or (scopes.globals.get? name)

/-- What is known about a name, or that it is not visible. -/
def lookup (scopes : Scopes) (name : String) : Except Violation Symbol :=
  match scopes.resolve? name with
  | some symbol => .ok symbol
  | none => .error (.nameNotDefined name)

/-- What stands against the declaration of a name: it is the name of a type, or it is visible
already. -/
def obstacle? (scopes : Scopes) (name : String) : Option Violation :=
  if (Ty.ofName? name).isSome then some (.reservedIdentifier name)
  else (scopes.resolve? name).map fun existing => .nameAlreadyDefined name existing.line

/-- The layers with a name declared in the innermost one, if nothing stands against it. -/
def declare (scopes : Scopes) (symbol : Symbol) : Except Violation Scopes :=
  match scopes.obstacle? symbol.name with
  | some violation => .error violation
  | none =>
    match scopes.function? with
    | some scope => (scope.declare symbol).map fun scope => { scopes with function? := some scope }
    | none => (scopes.globals.declare symbol).map fun scope => { scopes with globals := scope }

/-- The layers inside of a function. There are no functions in functions. -/
def enter (scopes : Scopes) (name : String) (scope : Scope) : Except Violation Scopes :=
  if scopes.inFunction then .error (.nestedFunction name)
  else .ok { scopes with function? := some scope }

/-- The layers outside of any function. -/
def leave (scopes : Scopes) : Scopes :=
  { scopes with function? := none }

end Scopes

end Jingle.Typing

import Jingle.Typing.Scope

/-!
# What is known while a program is checked

The names and functions that have been declared so far, and for the body of a function what its
return statements have returned so far.
-/

namespace Jingle.Typing

open Syntax (Ty)

/-- What is known about a function to its callers. A type is absent where the declaration names no
type. -/
structure Signature where
  name : String
  /-- The line of the declaration. -/
  line : UInt32
  parameters : List (Option Ty)
  returns : Option Ty
  deriving DecidableEq, Repr

/-- The functions that have been declared, at most one for each name. -/
structure Functions where
  signatures : List Signature
  deriving DecidableEq, Repr

namespace Functions

/-- No functions. -/
def empty : Functions :=
  ⟨[]⟩

/-- What is known about the function with the given name. -/
def get? (functions : Functions) (name : String) : Option Signature :=
  functions.signatures.find? (·.name = name)

/-- The number of functions. -/
def size (functions : Functions) : Nat :=
  functions.signatures.length

/-- The functions with one more. It takes the place of an earlier one with its name. -/
def insert (functions : Functions) (signature : Signature) : Functions :=
  ⟨signature :: functions.signatures.filter (·.name ≠ signature.name)⟩

/-- The functions in the order of their names. -/
def sorted (functions : Functions) : List Signature :=
  functions.signatures.mergeSort fun a b => decide (a.name ≤ b.name)

end Functions

/-- What is known between two statements of a program. -/
structure State where
  scopes : Scopes
  functions : Functions
  deriving DecidableEq, Repr

/-- What is known at the beginning of a program. -/
def State.initial : State :=
  ⟨.empty, .empty⟩

/-- What the return statements of a function have returned so far. -/
structure Returns where
  /-- The name of the function. -/
  name : String
  /-- The type that the function is declared to return. -/
  expected : Option Ty
  /-- The types that have been returned, without repetition and in the order of all types. -/
  observed : List Ty := []
  /-- The number of return statements, with those that return a value of no known type. -/
  count : Nat := 0
  deriving DecidableEq, Repr

namespace Returns

/-- One more type among the types that have been returned. -/
def observe (returns : Returns) (ty : Ty) : Returns :=
  { returns with observed := Ty.all.filter fun t => t = ty || returns.observed.contains t }

/-- One more return statement. -/
def tally (returns : Returns) : Returns :=
  { returns with count := returns.count + 1 }

end Returns

end Jingle.Typing

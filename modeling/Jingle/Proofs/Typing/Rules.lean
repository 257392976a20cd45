import Mathlib.Data.List.Forall2
import Jingle.Syntax.Basic

/-!
# The rules of the type system

The rules say which programs are well typed, without saying how to find out. A context gives the
types of the visible names and of the functions, and a statement leads from the context before it
to the context after it. Blocks have no names of their own: what is declared in a branch or a loop
stays visible after it.

* `HasType Γ e ty` says that the expression `e` has the type `ty` in the context `Γ`.
* `WellTyped Γ s Γ'` says that the statement `s` is well typed in `Γ` and leads to `Γ'`.
* `Block.WellTyped` says that a program is well typed.
-/

namespace Jingle.Typing

open Syntax

/-- The type of a name and whether the name can be written to. -/
structure Binding where
  ty : Ty
  writable : Bool

/-- The names of a layer. -/
abbrev Layer := String → Option Binding

/-- The types that a function takes and the type that it returns. -/
structure FnType where
  parameters : List Ty
  returns : Ty

/-- A function from the inside: its own names and the type that it has to return. -/
structure FnScope where
  names : Layer
  returns : Ty

/-- What the rules know at a place of a program. -/
structure Context where
  globals : Layer
  /-- The function around the place. -/
  function? : Option FnScope
  /-- The functions that can be called. -/
  functions : String → Option FnType

/-- The name of a type denotes a type. -/
def Denotes (typeName : TypeName) (ty : Ty) : Prop :=
  Ty.ofName? typeName.name = some ty

/-- The names that parameters declare in the body of their function. -/
def Layer.ofParameters (parameters : List Parameter) : Layer := fun name =>
  (parameters.find? (·.name = name)).bind fun parameter =>
    (Ty.ofName? parameter.typeName.name).map (⟨·, true⟩)

namespace Context

/-- The context at the beginning of a program. -/
def empty : Context :=
  ⟨fun _ => none, none, fun _ => none⟩

/-- What a visible name is bound to. The names of the function hide global ones. -/
def visible (Γ : Context) (name : String) : Option Binding :=
  (Γ.function?.bind fun fn => fn.names name).or (Γ.globals name)

/-- A name may be declared: it is not the name of a type and not visible. -/
def Declarable (Γ : Context) (name : String) : Prop :=
  Ty.ofName? name = none ∧ Γ.visible name = none

/-- The context with a name declared in the innermost layer. -/
def declare (Γ : Context) (name : String) (binding : Binding) : Context :=
  match Γ.function? with
  | some fn =>
    { Γ with function? := some { fn with names := Function.update fn.names name (some binding) } }
  | none => { Γ with globals := Function.update Γ.globals name (some binding) }

/-- The context with one more function. -/
def addFunction (Γ : Context) (name : String) (type : FnType) : Context :=
  { Γ with functions := Function.update Γ.functions name (some type) }

/-- The context inside of a function. -/
def enter (Γ : Context) (fn : FnScope) : Context :=
  { Γ with function? := some fn }

end Context

/-- The types of expressions. -/
inductive HasType (Γ : Context) : Expr → Ty → Prop where
  | integer {value : Int} {info : Info} : HasType Γ (.literal (.integer value) info) .int
  | float {value : Number.Double} {info : Info} : HasType Γ (.literal (.float value) info) .float
  | char {value : Char} {info : Info} : HasType Γ (.literal (.char value) info) .char
  | string {value : String} {info : Info} : HasType Γ (.literal (.string value) info) .string
  | bool {value : Bool} {info : Info} : HasType Γ (.literal (.bool value) info) .bool
  | binary {op : BinaryOp} {left right : Expr} {info : Info} {leftTy rightTy ty : Ty} :
      HasType Γ left leftTy → HasType Γ right rightTy → Ty.binary? op leftTy rightTy = some ty →
      HasType Γ (.binary op left right info) ty
  | unary {op : UnaryOp} {operand : Expr} {info : Info} {operandTy ty : Ty} :
      HasType Γ operand operandTy → Ty.unary? op operandTy = some ty →
      HasType Γ (.unary op operand info) ty
  | symbol {location : Location} {info : Info} {binding : Binding} :
      Γ.visible location.name = some binding → HasType Γ (.symbol location info) binding.ty
  | call {callee : String} {arguments : List Expr} {info : Info} {type : FnType} :
      Γ.functions callee = some type → List.Forall₂ (HasType Γ) arguments type.parameters →
      HasType Γ (.call callee arguments info) type.returns

mutual

/-- The number of return statements in a statement, without those of a function declared by it. -/
def returnCount : Stmt → Nat
  | .ret .. => 1
  | .branch _ ⟨_, thenBody⟩ ⟨_, elseBody⟩ _ => returnCounts thenBody + returnCounts elseBody
  | .loop _ ⟨_, body⟩ _ => returnCounts body
  | .varDecl .. | .constDecl .. | .echo .. | .assign .. | .fnDecl .. => 0

/-- The number of return statements in statements one after another. -/
def returnCounts : List Stmt → Nat
  | [] => 0
  | stmt :: stmts => returnCount stmt + returnCounts stmts

end

mutual

/-- Well-typed statements. -/
inductive WellTyped : Context → Stmt → Context → Prop where
  | varDecl {Γ : Context} {name : String} {typeName : TypeName} {value : Option Expr} {info : Info}
      {ty : Ty} :
      Γ.Declarable name → Denotes typeName ty → (∀ e, value = some e → HasType Γ e ty) →
      WellTyped Γ (.varDecl name typeName value info) (Γ.declare name ⟨ty, true⟩)
  | constDecl {Γ : Context} {name : String} {value : Expr} {info : Info} {ty : Ty} :
      Γ.Declarable name → HasType Γ value ty →
      WellTyped Γ (.constDecl name value info) (Γ.declare name ⟨ty, false⟩)
  | echo {Γ : Context} {value : Expr} {line : UInt32} {ty : Ty} :
      HasType Γ value ty → WellTyped Γ (.echo value line) Γ
  | branch {Γ Γ₁ Γ₂ : Context} {condition : Expr} {thenBody elseBody : List Stmt}
      {thenLine elseLine line : UInt32} :
      HasType Γ condition .bool → AllWellTyped Γ thenBody Γ₁ → AllWellTyped Γ₁ elseBody Γ₂ →
      WellTyped Γ (.branch condition ⟨thenLine, thenBody⟩ ⟨elseLine, elseBody⟩ line) Γ₂
  | loop {Γ Γ₁ : Context} {condition : Expr} {body : List Stmt} {bodyLine line : UInt32} :
      HasType Γ condition .bool → AllWellTyped Γ body Γ₁ →
      WellTyped Γ (.loop condition ⟨bodyLine, body⟩ line) Γ₁
  | assign {Γ : Context} {target : Location} {value : Expr} {info : Info} {ty : Ty} :
      Γ.visible target.name = some ⟨ty, true⟩ → HasType Γ value ty →
      WellTyped Γ (.assign target value info) Γ
  | fnDecl {Γ Γ₁ : Context} {name : String} {parameters : List Parameter} {typeName : TypeName}
      {body : List Stmt} {bodyLine line : UInt32} {type : FnType} :
      Γ.function? = none → Γ.functions name = none →
      List.Forall₂ (fun parameter => Denotes parameter.typeName) parameters type.parameters →
      (parameters.map (·.name)).Nodup → Denotes typeName type.returns →
      AllWellTyped ((Γ.addFunction name type).enter ⟨.ofParameters parameters, type.returns⟩)
        body Γ₁ →
      0 < returnCounts body →
      WellTyped Γ (.fnDecl name parameters typeName ⟨bodyLine, body⟩ line) (Γ.addFunction name type)
  | ret {Γ : Context} {fn : FnScope} {value : Expr} {info : Info} :
      Γ.function? = some fn → HasType Γ value fn.returns → WellTyped Γ (.ret value info) Γ

/-- Well-typed statements one after another. -/
inductive AllWellTyped : Context → List Stmt → Context → Prop where
  | nil {Γ : Context} : AllWellTyped Γ [] Γ
  | cons {Γ Γ₁ Γ₂ : Context} {stmt : Stmt} {stmts : List Stmt} :
      WellTyped Γ stmt Γ₁ → AllWellTyped Γ₁ stmts Γ₂ → AllWellTyped Γ (stmt :: stmts) Γ₂

end

end Jingle.Typing

namespace Jingle.Syntax

/-- A well-typed program. -/
def Block.WellTyped (block : Block) : Prop :=
  ∃ Γ, Typing.AllWellTyped .empty block.body Γ

end Jingle.Syntax

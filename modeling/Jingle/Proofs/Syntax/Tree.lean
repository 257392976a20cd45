import Jingle.Syntax.Outline

/-!
# Nodes and lines of trees

What holds of every node of a tree is said of its outline, and proved along the tree: of the node
itself and of the nodes of its parts. Trees that differ only in the lines of their nodes become
equal when the lines are erased.

* `Expr.forall_outline_iff` and `Stmt.forall_outline_iff` lead from outlines to trees.
* `Node.declared?` is the identifier that a node declares.
* `Block.eraseLines` erases the lines of a tree and keeps everything else.
-/

namespace Jingle.Syntax

/-! ## Every node -/

mutual

/-- Something holds of every node of an expression. -/
def Expr.All (P : Node → Prop) : Expr → Prop
  | e@(.literal ..) => P (.expr e)
  | e@(.binary _ left right _) => P (.expr e) ∧ left.All P ∧ right.All P
  | e@(.unary _ operand _) => P (.expr e) ∧ operand.All P
  | e@(.symbol location _) => P (.expr e) ∧ P (.location location)
  | e@(.call _ arguments _) => P (.expr e) ∧ Expr.AllIn P arguments

/-- Something holds of every node of expressions. -/
def Expr.AllIn (P : Node → Prop) : List Expr → Prop
  | [] => True
  | e :: exprs => e.All P ∧ Expr.AllIn P exprs

end

/-- Something holds of the two nodes of a parameter. -/
def Parameter.All (P : Node → Prop) (parameter : Parameter) : Prop :=
  P (.parameter parameter) ∧ P (.typeName parameter.typeName)

mutual

/-- Something holds of every node of a statement. -/
def Stmt.All (P : Node → Prop) : Stmt → Prop
  | s@(.varDecl _ typeName value _) =>
    P (.stmt s) ∧ P (.typeName typeName) ∧ ∀ e ∈ value, e.All P
  | s@(.constDecl _ value _) => P (.stmt s) ∧ value.All P
  | s@(.echo value _) => P (.stmt s) ∧ value.All P
  | s@(.branch condition ⟨_, thenBody⟩ ⟨_, elseBody⟩ _) =>
    P (.stmt s) ∧ condition.All P ∧ Stmt.AllIn P thenBody ∧ Stmt.AllIn P elseBody
  | s@(.loop condition ⟨_, body⟩ _) => P (.stmt s) ∧ condition.All P ∧ Stmt.AllIn P body
  | s@(.assign target value _) => P (.stmt s) ∧ P (.location target) ∧ value.All P
  | s@(.fnDecl _ parameters returns ⟨_, body⟩ _) =>
    P (.stmt s) ∧ (∀ parameter ∈ parameters, parameter.All P) ∧ P (.typeName returns) ∧
      Stmt.AllIn P body
  | s@(.ret value _) => P (.stmt s) ∧ value.All P

/-- Something holds of every node of statements. -/
def Stmt.AllIn (P : Node → Prop) : List Stmt → Prop
  | [] => True
  | s :: stmts => s.All P ∧ Stmt.AllIn P stmts

end

section Blocks

variable {P : Node → Prop} {condition : Expr} {thenBody elseBody body : Block} {line : UInt32}

theorem Stmt.all_branch : (Stmt.branch condition thenBody elseBody line).All P ↔
    P (.stmt (.branch condition thenBody elseBody line)) ∧ condition.All P ∧
      Stmt.AllIn P thenBody.body ∧ Stmt.AllIn P elseBody.body := by
  cases thenBody
  cases elseBody
  exact Iff.rfl

theorem Stmt.all_loop : (Stmt.loop condition body line).All P ↔
    P (.stmt (.loop condition body line)) ∧ condition.All P ∧ Stmt.AllIn P body.body := by
  cases body
  exact Iff.rfl

theorem Stmt.all_fnDecl {name : String} {parameters : List Parameter} {returns : TypeName} :
    (Stmt.fnDecl name parameters returns body line).All P ↔
      P (.stmt (.fnDecl name parameters returns body line)) ∧
        (∀ parameter ∈ parameters, parameter.All P) ∧ P (.typeName returns) ∧
          Stmt.AllIn P body.body := by
  cases body
  exact Iff.rfl

end Blocks

section Outline

variable (P : Node → Prop)

mutual

theorem Expr.forall_outline_iff (depth : Nat) :
    ∀ e : Expr, (∀ entry ∈ e.outline depth, P entry.2) ↔ e.All P
  | .literal .. => by simp [Expr.outline, Expr.All]
  | .binary _ left right _ => by
    simp only [Expr.outline, Expr.All, List.forall_mem_cons, List.forall_mem_append,
      left.forall_outline_iff, right.forall_outline_iff]
  | .unary _ operand _ => by
    simp only [Expr.outline, Expr.All, List.forall_mem_cons, operand.forall_outline_iff]
  | .symbol .. => by simp [Expr.outline, Expr.All]
  | .call _ arguments _ => by
    simp only [Expr.outline, Expr.All, List.forall_mem_cons, Expr.forall_outlines_iff]

theorem Expr.forall_outlines_iff (depth : Nat) :
    ∀ exprs : List Expr, (∀ entry ∈ Expr.outlines depth exprs, P entry.2) ↔ Expr.AllIn P exprs
  | [] => by simp [Expr.outlines, Expr.AllIn]
  | e :: exprs => by
    simp only [Expr.outlines, Expr.AllIn, List.forall_mem_append, e.forall_outline_iff,
      Expr.forall_outlines_iff]

end

theorem Parameter.forall_outline_iff (depth : Nat) (parameters : List Parameter) :
    (∀ entry ∈ parameters.flatMap (Parameter.outline depth), P entry.2) ↔
      ∀ parameter ∈ parameters, parameter.All P := by
  induction parameters with
  | nil => simp
  | cons parameter parameters ih =>
    simp only [List.flatMap_cons, List.forall_mem_append, List.forall_mem_cons, ih,
      Parameter.outline, Parameter.All, List.not_mem_nil, false_implies, implies_true, and_true]

mutual

theorem Stmt.forall_outline_iff (depth : Nat) :
    ∀ s : Stmt, (∀ entry ∈ s.outline depth, P entry.2) ↔ s.All P
  | .varDecl _ _ none _ => by simp [Stmt.outline, Stmt.All]
  | .varDecl _ _ (some value) _ => by
    simp [Stmt.outline, Stmt.All, ← value.forall_outline_iff P (depth + 1)]
  | .constDecl _ value _ | .echo value _ | .ret value _ => by
    simp only [Stmt.outline, Stmt.All, List.forall_mem_cons, value.forall_outline_iff]
  | .branch condition ⟨_, thenBody⟩ ⟨_, elseBody⟩ _ => by
    simp only [Stmt.outline, Stmt.All, List.forall_mem_cons, List.forall_mem_append,
      condition.forall_outline_iff, Stmt.forall_outlines_iff, and_assoc]
  | .loop condition ⟨_, body⟩ _ => by
    simp only [Stmt.outline, Stmt.All, List.forall_mem_cons, List.forall_mem_append,
      condition.forall_outline_iff, Stmt.forall_outlines_iff]
  | .assign _ value _ => by
    simp only [Stmt.outline, Stmt.All, List.forall_mem_cons, value.forall_outline_iff]
  | .fnDecl _ parameters _ ⟨_, body⟩ _ => by
    simp only [Stmt.outline, Stmt.All, List.forall_mem_cons, List.forall_mem_append,
      Parameter.forall_outline_iff, Stmt.forall_outlines_iff]

theorem Stmt.forall_outlines_iff (depth : Nat) :
    ∀ stmts : List Stmt, (∀ entry ∈ Stmt.outlines depth stmts, P entry.2) ↔ Stmt.AllIn P stmts
  | [] => by simp [Stmt.outlines, Stmt.AllIn]
  | s :: stmts => by
    simp only [Stmt.outlines, Stmt.AllIn, List.forall_mem_append, s.forall_outline_iff,
      Stmt.forall_outlines_iff]

end

end Outline

/-! ## Identifiers -/

/-- The identifiers of a program. Functions are known apart from variables, constants and
parameters. -/
inductive Identifier where
  | name (name : String)
  | function (name : String)
  deriving DecidableEq, Repr

/-- The identifier that a node declares. -/
def Node.declared? : Node → Option Identifier
  | stmt (.varDecl name _ _ _) | stmt (.constDecl name _ _) => some (.name name)
  | stmt (.fnDecl name _ _ _ _) => some (.function name)
  | parameter p => some (.name p.name)
  | _ => none

/-! ## Lines -/

/-- The same without its line. -/
def Info.eraseLines (info : Info) : Info :=
  { info with line := 0 }

def Location.eraseLines (location : Location) : Location :=
  { location with line := 0 }

def TypeName.eraseLines (typeName : TypeName) : TypeName :=
  { typeName with line := 0 }

def Parameter.eraseLines (parameter : Parameter) : Parameter :=
  { parameter with line := 0, typeName := parameter.typeName.eraseLines }

mutual

/-- An expression without the lines of its nodes. -/
def Expr.eraseLines : Expr → Expr
  | .literal value info => .literal value info.eraseLines
  | .binary op left right info => .binary op left.eraseLines right.eraseLines info.eraseLines
  | .unary op operand info => .unary op operand.eraseLines info.eraseLines
  | .symbol location info => .symbol location.eraseLines info.eraseLines
  | .call callee arguments info => .call callee (Expr.eraseAllLines arguments) info.eraseLines

def Expr.eraseAllLines : List Expr → List Expr
  | [] => []
  | e :: exprs => e.eraseLines :: Expr.eraseAllLines exprs

end

mutual

/-- A statement without the lines of its nodes and blocks. -/
def Stmt.eraseLines : Stmt → Stmt
  | .varDecl name typeName value info =>
    .varDecl name typeName.eraseLines (value.map Expr.eraseLines) info.eraseLines
  | .constDecl name value info => .constDecl name value.eraseLines info.eraseLines
  | .echo value _ => .echo value.eraseLines 0
  | .branch condition ⟨_, thenBody⟩ ⟨_, elseBody⟩ _ =>
    .branch condition.eraseLines ⟨0, Stmt.eraseAllLines thenBody⟩ ⟨0, Stmt.eraseAllLines elseBody⟩ 0
  | .loop condition ⟨_, body⟩ _ => .loop condition.eraseLines ⟨0, Stmt.eraseAllLines body⟩ 0
  | .assign target value info => .assign target.eraseLines value.eraseLines info.eraseLines
  | .fnDecl name parameters returns ⟨_, body⟩ _ =>
    .fnDecl name (parameters.map Parameter.eraseLines) returns.eraseLines
      ⟨0, Stmt.eraseAllLines body⟩ 0
  | .ret value info => .ret value.eraseLines info.eraseLines

def Stmt.eraseAllLines : List Stmt → List Stmt
  | [] => []
  | s :: stmts => s.eraseLines :: Stmt.eraseAllLines stmts

end

theorem Expr.eraseAllLines_eq_map (exprs : List Expr) :
    Expr.eraseAllLines exprs = exprs.map Expr.eraseLines := by
  induction exprs with
  | nil => rfl
  | cons e exprs ih => rw [Expr.eraseAllLines, ih, List.map_cons]

/-- A block without its line and the lines of its nodes and blocks. -/
def Block.eraseLines (block : Block) : Block :=
  ⟨0, Stmt.eraseAllLines block.body⟩

section

variable (condition : Expr) (thenBody elseBody body : Block) (line : UInt32)

theorem Stmt.eraseLines_branch : (Stmt.branch condition thenBody elseBody line).eraseLines =
    .branch condition.eraseLines thenBody.eraseLines elseBody.eraseLines 0 := by
  cases thenBody
  cases elseBody
  rfl

theorem Stmt.eraseLines_loop : (Stmt.loop condition body line).eraseLines =
    .loop condition.eraseLines body.eraseLines 0 := by
  cases body
  rfl

theorem Stmt.eraseLines_fnDecl (name : String) (parameters : List Parameter) (returns : TypeName) :
    (Stmt.fnDecl name parameters returns body line).eraseLines =
      .fnDecl name (parameters.map Parameter.eraseLines) returns.eraseLines body.eraseLines 0 := by
  cases body
  rfl

end

end Jingle.Syntax

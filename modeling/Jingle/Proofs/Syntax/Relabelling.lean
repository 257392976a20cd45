import Jingle.Syntax.Outline

/-!
# Trees with other names and lines

* `Renaming` gives new names to variables and to functions and keeps different names different.
  `Relabelling` gives new lines as well, which need not stay different.
* `Block.relabel` changes the names and lines of a tree and keeps everything else.
* `Block.outline_relabel` says that the nodes of the tree stay where they are.
-/

namespace Jingle.Syntax

/-- New names for variables, constants and parameters, and new names for functions. The names of
types are the names of types before and after. -/
structure Renaming where
  names : String → String
  functions : String → String
  names_injective : Function.Injective names
  functions_injective : Function.Injective functions
  reserved : ∀ name, (Ty.ofName? (names name)).isSome = (Ty.ofName? name).isSome

/-- New names and new lines. -/
structure Relabelling extends Renaming where
  lines : UInt32 → UInt32

section Trees

variable (r : Relabelling)

def Info.relabel (info : Info) : Info :=
  { info with line := r.lines info.line }

def Location.relabel (location : Location) : Location :=
  { location with line := r.lines location.line, name := r.names location.name }

/-- The name of a type stays. -/
def TypeName.relabel (typeName : TypeName) : TypeName :=
  { typeName with line := r.lines typeName.line }

def Parameter.relabel (parameter : Parameter) : Parameter :=
  { parameter with
    line := r.lines parameter.line
    name := r.names parameter.name
    typeName := parameter.typeName.relabel r }

mutual

/-- An expression with new names and lines and the same types. -/
def Expr.relabel : Expr → Expr
  | .literal value info => .literal value (info.relabel r)
  | .binary op left right info => .binary op left.relabel right.relabel (info.relabel r)
  | .unary op operand info => .unary op operand.relabel (info.relabel r)
  | .symbol location info => .symbol (location.relabel r) (info.relabel r)
  | .call callee arguments info =>
    .call (r.functions callee) (Expr.relabelAll arguments) (info.relabel r)

def Expr.relabelAll : List Expr → List Expr
  | [] => []
  | e :: exprs => e.relabel :: Expr.relabelAll exprs

end

mutual

/-- A statement with new names and lines and the same types. -/
def Stmt.relabel : Stmt → Stmt
  | .varDecl name typeName value info =>
    .varDecl (r.names name) (typeName.relabel r) (value.map (Expr.relabel r)) (info.relabel r)
  | .constDecl name value info => .constDecl (r.names name) (value.relabel r) (info.relabel r)
  | .echo value line => .echo (value.relabel r) (r.lines line)
  | .branch condition ⟨thenLine, thenBody⟩ ⟨elseLine, elseBody⟩ line =>
    .branch (condition.relabel r) ⟨r.lines thenLine, Stmt.relabelAll thenBody⟩
      ⟨r.lines elseLine, Stmt.relabelAll elseBody⟩ (r.lines line)
  | .loop condition ⟨bodyLine, body⟩ line =>
    .loop (condition.relabel r) ⟨r.lines bodyLine, Stmt.relabelAll body⟩ (r.lines line)
  | .assign target value info => .assign (target.relabel r) (value.relabel r) (info.relabel r)
  | .fnDecl name parameters returns ⟨bodyLine, body⟩ line =>
    .fnDecl (r.functions name) (parameters.map (Parameter.relabel r)) (returns.relabel r)
      ⟨r.lines bodyLine, Stmt.relabelAll body⟩ (r.lines line)
  | .ret value info => .ret (value.relabel r) (info.relabel r)

def Stmt.relabelAll : List Stmt → List Stmt
  | [] => []
  | s :: stmts => s.relabel :: Stmt.relabelAll stmts

end

/-- A block with new names and lines and the same types. -/
def Block.relabel (block : Block) : Block :=
  ⟨r.lines block.line, Stmt.relabelAll r block.body⟩

end Trees

theorem Expr.relabelAll_eq_map (r : Relabelling) (exprs : List Expr) :
    Expr.relabelAll r exprs = exprs.map (Expr.relabel r) := by
  induction exprs with
  | nil => rfl
  | cons e exprs ih => rw [Expr.relabelAll, ih, List.map_cons]

theorem Expr.relabel_ty (r : Relabelling) (e : Expr) : (e.relabel r).ty = e.ty := by
  cases e <;> rfl

/-! ## Outlines -/

section Outlines

variable (r : Relabelling)

def Node.relabel : Node → Node
  | stmt s => stmt (s.relabel r)
  | expr e => expr (e.relabel r)
  | location l => location (l.relabel r)
  | typeName a => typeName (a.relabel r)
  | parameter p => parameter (p.relabel r)

theorem Node.relabel_line (node : Node) : (node.relabel r).line = r.lines node.line := by
  cases node with
  | stmt s =>
    cases s with
    | branch _ thenBody elseBody => cases thenBody; cases elseBody; rfl
    | loop _ body | fnDecl _ _ _ body => cases body; rfl
    | varDecl | constDecl | echo | assign | ret => rfl
  | expr e => cases e <;> rfl
  | location | typeName | parameter => rfl

theorem Node.relabel_ty (node : Node) : (node.relabel r).ty = node.ty := by
  cases node with
  | stmt s =>
    cases s with
    | branch _ thenBody elseBody => cases thenBody; cases elseBody; rfl
    | loop _ body | fnDecl _ _ _ body => cases body; rfl
    | varDecl | constDecl | echo | assign | ret => rfl
  | expr e => exact e.relabel_ty r
  | location | typeName | parameter => rfl

def Outline.relabel (outline : Outline) : Outline :=
  outline.map fun entry => (entry.1, entry.2.relabel r)

theorem Outline.relabel_cons (depth : Nat) (node : Node) (outline : Outline) :
    Outline.relabel r ((depth, node) :: outline) =
      (depth, node.relabel r) :: Outline.relabel r outline :=
  rfl

theorem Outline.relabel_append (first second : Outline) :
    Outline.relabel r (first ++ second) = Outline.relabel r first ++ Outline.relabel r second :=
  List.map_append

mutual

theorem Expr.outline_relabel (depth : Nat) :
    ∀ e : Expr, (e.relabel r).outline depth = Outline.relabel r (e.outline depth)
  | .literal .. | .symbol .. => rfl
  | .binary _ left right _ => by
    simp only [Expr.relabel, Expr.outline, left.outline_relabel, right.outline_relabel,
      Outline.relabel_cons, Outline.relabel_append, Node.relabel]
  | .unary _ operand _ => by
    simp only [Expr.relabel, Expr.outline, operand.outline_relabel, Outline.relabel_cons,
      Node.relabel]
  | .call _ arguments _ => by
    simp only [Expr.relabel, Expr.outline, Expr.outlines_relabel _ arguments,
      Outline.relabel_cons, Node.relabel]

theorem Expr.outlines_relabel (depth : Nat) : ∀ exprs : List Expr,
    Expr.outlines depth (Expr.relabelAll r exprs) = Outline.relabel r (Expr.outlines depth exprs)
  | [] => rfl
  | e :: exprs => by
    simp only [Expr.relabelAll, Expr.outlines, e.outline_relabel, Expr.outlines_relabel _ exprs,
      Outline.relabel_append]

end

theorem Parameter.outline_relabel (depth : Nat) (parameters : List Parameter) :
    (parameters.map (Parameter.relabel r)).flatMap (Parameter.outline depth) =
      Outline.relabel r (parameters.flatMap (Parameter.outline depth)) := by
  rw [List.flatMap_map, Outline.relabel, List.map_flatMap]
  rfl

mutual

theorem Stmt.outline_relabel (depth : Nat) :
    ∀ s : Stmt, (s.relabel r).outline depth = Outline.relabel r (s.outline depth)
  | .varDecl _ _ none _ => rfl
  | .varDecl _ _ (some value) _ | .constDecl _ value _ | .echo value _ | .assign _ value _
  | .ret value _ => by
    simp only [Stmt.relabel, Stmt.outline, Option.map_some, value.outline_relabel,
      Outline.relabel_cons, Node.relabel]
  | .branch condition ⟨_, thenBody⟩ ⟨_, elseBody⟩ _ => by
    simp only [Stmt.relabel, Stmt.outline, condition.outline_relabel,
      Stmt.outlines_relabel _ thenBody, Stmt.outlines_relabel _ elseBody, Outline.relabel_cons,
      Outline.relabel_append, Node.relabel]
  | .loop condition ⟨_, body⟩ _ => by
    simp only [Stmt.relabel, Stmt.outline, condition.outline_relabel,
      Stmt.outlines_relabel _ body, Outline.relabel_cons, Outline.relabel_append, Node.relabel]
  | .fnDecl _ parameters _ ⟨_, body⟩ _ => by
    simp only [Stmt.relabel, Stmt.outline, Parameter.outline_relabel,
      Stmt.outlines_relabel _ body, Outline.relabel_cons, Outline.relabel_append, Node.relabel]

theorem Stmt.outlines_relabel (depth : Nat) : ∀ stmts : List Stmt,
    Stmt.outlines depth (Stmt.relabelAll r stmts) = Outline.relabel r (Stmt.outlines depth stmts)
  | [] => rfl
  | s :: stmts => by
    simp only [Stmt.relabelAll, Stmt.outlines, s.outline_relabel, Stmt.outlines_relabel _ stmts,
      Outline.relabel_append]

end

/-- The nodes of a program with other names and lines are those of the program, in the same places.
-/
theorem Block.outline_relabel (block : Block) :
    (block.relabel r).outline = Outline.relabel r block.outline :=
  Stmt.outlines_relabel r 0 block.body

end Outlines

end Jingle.Syntax

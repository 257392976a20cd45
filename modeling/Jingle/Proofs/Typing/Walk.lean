import Jingle.Proofs.Typing.Declaration
import Jingle.Syntax.Outline

/-!
# The walk of the checker through a program

Checking goes through the nodes of a program in the order of its outline. It comes to a node with
what is known there, and it leaves out the nodes that a broken rule makes meaningless. A walk is the
outline of a program with the place at which checking comes to each node, so that what is reported
about a node and what is known before it can be said of the node alone.

* `Block.walk` is the walk through a program.
* `Block.walk_entries` says that a walk goes through the outline, and `Block.walk_annotated` that
  it leads to the outline of the annotated program.
* `Block.walk_reports` says that the diagnostics of a program are those of the nodes of its walk.
-/

namespace Jingle.Typing

open Syntax

/-! ## Places -/

/-- A place that checking comes to: what is known there, and the returns of the function around
it. -/
structure Point where
  state : State
  returns : Option Returns
  deriving DecidableEq, Repr

namespace Point

/-- The place at the beginning of a program. -/
def start : Point :=
  ⟨.initial, none⟩

/-- The place after a statement. -/
def after (point : Point) (s : Stmt) : Point :=
  let outcome := s.check point.state point.returns
  ⟨outcome.state, outcome.returns⟩

/-- The place after statements in a row. -/
def afterAll (point : Point) (stmts : List Stmt) : Point :=
  let outcome := Stmt.checkAll point.state point.returns stmts
  ⟨outcome.state, outcome.returns⟩

/-- The place behind a name that is declared. It is not come to if the name is taken. -/
def declaring? (point : Point) (name : String) : Option Point :=
  if (point.state.scopes.obstacle? name).isSome then none else some point

/-- The place at the body of a function. It is not come to inside of another function. -/
def inside? (point : Point) (name : String) (parameters : List Parameter) (typeName : TypeName)
    (line : UInt32) : Option Point :=
  let head := Stmt.checkHead point.state name parameters typeName line
  match Stmt.enterFn point.state name head.1 head.2.1.ty line with
  | .ok inside => some ⟨inside, some { name, expected := head.2.1.ty }⟩
  | .error _ => none

end Point

end Jingle.Typing

/-! ## Places behind names, conditions and heads of functions -/

namespace Jingle.Typing.Point

open Syntax

variable {point inside : Point} {name : String}

theorem declaring?_of_free (h : point.state.scopes.obstacle? name = none) :
    point.declaring? name = some point := by
  rw [declaring?, h]
  rfl

theorem declaring?_of_taken {violation : Violation}
    (h : point.state.scopes.obstacle? name = some violation) : point.declaring? name = none := by
  rw [declaring?, h]
  rfl

/-- The body of a function is come to only outside of functions. -/
theorem inside?_eq (point : Point) (name : String) (parameters : List Parameter)
    (typeName : TypeName) (line : UInt32) :
    point.inside? name parameters typeName line =
      if point.state.scopes.inFunction then none
      else some
        ⟨⟨⟨point.state.scopes.globals,
            some (.ofSymbols ((Parameter.checkAll parameters).1.map Parameter.symbol))⟩,
          point.state.functions.register
            ⟨name, line, parameters.map (Ty.ofName? ·.typeName.name), Ty.ofName? typeName.name⟩⟩,
          some { name, expected := Ty.ofName? typeName.name }⟩ := by
  have hTypes : (Parameter.checkAll parameters).1.map (·.ty) =
      parameters.map (Ty.ofName? ·.typeName.name) := by
    simp [Parameter.checkAll_fst, Function.comp_def]
  simp only [inside?, Stmt.checkHead, Stmt.enterFn_eq, TypeName.check_ty, hTypes]
  by_cases hInside : point.state.scopes.inFunction
  · rw [if_pos hInside, if_pos hInside]
  · rw [if_neg hInside, if_neg hInside]

theorem inside?_eq_none_iff {parameters : List Parameter} {typeName : TypeName} {line : UInt32} :
    point.inside? name parameters typeName line = none ↔ point.state.scopes.inFunction := by
  rw [inside?_eq]
  by_cases hInside : point.state.scopes.inFunction
  · rw [if_pos hInside]
    exact iff_of_true rfl hInside
  · rw [if_neg hInside]
    exact iff_of_false (Option.some_ne_none _) hInside

theorem not_inFunction_of_inside? {parameters : List Parameter} {typeName : TypeName}
    {line : UInt32} (h : point.inside? name parameters typeName line = some inside) :
    ¬ point.state.scopes.inFunction := by
  intro hInside
  rw [inside?_eq_none_iff.mpr hInside] at h
  cases h

theorem exists_inside? (hOutside : ¬ point.state.scopes.inFunction) (name : String)
    (parameters : List Parameter) (typeName : TypeName) (line : UInt32) :
    ∃ inside, point.inside? name parameters typeName line = some inside := by
  rw [inside?_eq, if_neg hOutside]
  exact ⟨_, rfl⟩

/-- A body is come to in a layer of its own, with nothing returned so far. -/
theorem inside?_eq_some {parameters : List Parameter} {typeName : TypeName} {line : UInt32}
    (h : point.inside? name parameters typeName line = some inside) :
    inside.state.scopes.inFunction ∧
      inside.returns = some { name, expected := Ty.ofName? typeName.name } := by
  rw [inside?_eq] at h
  split at h
  · cases h
  · obtain rfl := Option.some.inj h
    exact ⟨rfl, rfl⟩

end Jingle.Typing.Point

namespace Jingle.Syntax.Stmt

open Typing

variable {point inside : Point} {name : String} {parameters : List Parameter}
  {typeName : TypeName} {line : UInt32}

/-- A function in a function is refused after its head. -/
theorem check_fnDecl_of_none (h : point.inside? name parameters typeName line = none)
    (body : Block) :
    (fnDecl name parameters typeName body line).check point.state point.returns =
      let head := checkHead point.state name parameters typeName line
      ⟨.fnDecl name head.1 head.2.1 body line, point.state, point.returns,
        head.2.2 ++ [⟨line, .nestedFunction name⟩]⟩ := by
  obtain ⟨bodyLine, body⟩ := body
  simp only [check, enterFn_eq, if_pos (Point.inside?_eq_none_iff.mp h)]

/-- A function outside of functions is known by its head and by the outcome of its body. -/
theorem check_fnDecl_of_some (h : point.inside? name parameters typeName line = some inside)
    (body : Block) :
    (fnDecl name parameters typeName body line).check point.state point.returns =
      let head := checkHead point.state name parameters typeName line
      let inner := checkAll inside.state inside.returns body.body
      ⟨.fnDecl name head.1 head.2.1 ⟨body.line, inner.tree⟩ line,
        { inner.state with scopes := inner.state.scopes.leave }, point.returns,
        head.2.2 ++ inner.diagnostics ++
          (inner.returns.bind Verdict.ofReturns).toList.map (⟨line, ·⟩)⟩ := by
  obtain ⟨bodyLine, body⟩ := body
  rw [Point.inside?] at h
  rw [check]
  dsimp only at h ⊢
  split at h
  · next state hEnter =>
    cases h
    rw [hEnter]
  · cases h

end Jingle.Syntax.Stmt

/-! ## What is said of a node at a place -/

namespace Jingle.Syntax.Node

open Typing

/-- The annotated node. -/
def annotate (point : Point) : Node → Node
  | stmt s => stmt (s.check point.state point.returns).tree
  | expr e => expr (e.check point.state).1
  | location l => location (l.check point.state.scopes).1
  | typeName a => typeName a.check.1
  | parameter p => parameter p.check.1

/-- The diagnostics of a function declaration itself. -/
def fnReports (point : Point) (name : String) (parameters : List Parameter) (typeName : TypeName)
    (body : Block) (line : UInt32) : List Diagnostic :=
  let earlier : Option Diagnostic := (point.state.functions.get? name).map fun signature =>
    ⟨line, .functionAlreadyDefined name signature.line⟩
  let repeated : List Diagnostic :=
    if hasDuplicates (parameters.map (·.name)) then [⟨line, .duplicateParameters⟩] else []
  let last : Option Violation :=
    match point.inside? name parameters typeName line with
    | none => some (.nestedFunction name)
    | some inside => (inside.afterAll body.body).returns.bind Verdict.ofReturns
  earlier.toList ++ repeated ++ last.toList.map (⟨line, ·⟩)

/-- The diagnostics of a node itself, without those of its parts. -/
def reports (point : Point) : Node → List Diagnostic
  | expr (.literal ..) | expr (.symbol ..) | parameter _ | stmt (.echo ..) => []
  | expr (.binary op left right info) =>
    (Verdict.ofBinary op (left.check point.state).1.ty (right.check point.state).1.ty).diagnostics
      info.line
  | expr (.unary op operand info) =>
    (Verdict.ofUnary op (operand.check point.state).1.ty).diagnostics info.line
  | expr (.call callee arguments info) =>
    (Verdict.ofCall point.state.functions callee
      ((Expr.checkAll point.state arguments).1.map Expr.ty)).diagnostics info.line
  | location l => (Verdict.ofLocation point.state.scopes l.name).diagnostics l.line
  | typeName a => (Verdict.ofTypeName a.name).diagnostics a.line
  | stmt (.varDecl name a value info) =>
    match point.state.scopes.obstacle? name with
    | some violation => [⟨info.line, violation⟩]
    | none =>
      (Verdict.ofDeclaration name (Ty.ofName? a.name)
        ((Expr.checkOption point.state value).1.map Expr.ty)).diagnostics info.line
  | stmt (.constDecl name _ info) =>
    (point.state.scopes.obstacle? name).toList.map (⟨info.line, ·⟩)
  | stmt (.branch condition _ _ line) | stmt (.loop condition _ line) =>
    (Verdict.ofCondition (condition.check point.state).1.ty).diagnostics line
  | stmt (.assign target value info) =>
    (Verdict.ofAssignment point.state.scopes target.name
      (value.check point.state).1.ty).diagnostics info.line
  | stmt (.fnDecl name parameters a body line) =>
    fnReports point name parameters a body line
  | stmt (.ret value info) =>
    (Verdict.ofReturn point.returns (value.check point.state).1.ty).diagnostics info.line

end Jingle.Syntax.Node

/-! ## Walks -/

namespace Jingle.Typing

open Syntax

/-- A node of an outline and the place at which checking comes to it, unless it is left out. -/
structure Visit where
  depth : Nat
  node : Node
  point? : Option Point

namespace Visit

/-- The node in the outline. -/
def entry (visit : Visit) : Nat × Node :=
  (visit.depth, visit.node)

/-- The node in the outline of the annotated program. -/
def annotated (visit : Visit) : Nat × Node :=
  (visit.depth, visit.point?.elim visit.node visit.node.annotate)

/-- What is reported about the node. -/
def reports (visit : Visit) : List Diagnostic :=
  visit.point?.elim [] visit.node.reports

end Visit

end Jingle.Typing

namespace Jingle.Syntax

open Typing

/-- The nodes of an outline that are all come to at one place, or all left out. -/
def Outline.visits (point? : Option Point) (outline : Outline) : List Visit :=
  outline.map fun entry => ⟨entry.1, entry.2, point?⟩

/-- The outline of the head of a function: its parameters and the type that it returns. -/
def Outline.ofHead (depth : Nat) (parameters : List Parameter) (typeName : TypeName) : Outline :=
  parameters.flatMap (Parameter.outline depth) ++ [(depth, .typeName typeName)]

mutual

/-- The walk through a statement. -/
def Stmt.walk (depth : Nat) (point : Point) : Stmt → List Visit
  | s@(.varDecl name typeName value _) =>
    ⟨depth, .stmt s, point⟩ :: Outline.visits (point.declaring? name)
      ((depth + 1, .typeName typeName) :: (value.elim [] (Expr.outline (depth + 1))))
  | s@(.constDecl name value _) =>
    ⟨depth, .stmt s, point⟩ ::
      Outline.visits (point.declaring? name) (value.outline (depth + 1))
  | s@(.echo value _) | s@(.ret value _) =>
    ⟨depth, .stmt s, point⟩ :: Outline.visits point (value.outline (depth + 1))
  | s@(.branch condition ⟨_, thenBody⟩ ⟨_, elseBody⟩ _) =>
    ⟨depth, .stmt s, point⟩ :: (Outline.visits point (condition.outline (depth + 1)) ++
      if (condition.check point.state).1.ty = some .bool then
        Stmt.walkAll (depth + 1) point thenBody ++
          Stmt.walkAll (depth + 1) (point.afterAll thenBody) elseBody
      else
        Outline.visits none
          (Stmt.outlines (depth + 1) thenBody ++ Stmt.outlines (depth + 1) elseBody))
  | s@(.loop condition ⟨_, body⟩ _) =>
    ⟨depth, .stmt s, point⟩ :: (Outline.visits point (condition.outline (depth + 1)) ++
      if (condition.check point.state).1.ty = some .bool then
        Stmt.walkAll (depth + 1) point body
      else Outline.visits none (Stmt.outlines (depth + 1) body))
  | s@(.assign target value _) =>
    ⟨depth, .stmt s, point⟩ ::
      Outline.visits point ((depth + 1, .location target) :: value.outline (depth + 1))
  | s@(.fnDecl name parameters typeName ⟨_, body⟩ line) =>
    ⟨depth, .stmt s, point⟩ :: (Outline.visits point (.ofHead (depth + 1) parameters typeName) ++
      match point.inside? name parameters typeName line with
      | some inside => Stmt.walkAll (depth + 1) inside body
      | none => Outline.visits none (Stmt.outlines (depth + 1) body))

/-- The walk through statements one after another. -/
def Stmt.walkAll (depth : Nat) (point : Point) : List Stmt → List Visit
  | [] => []
  | s :: stmts => s.walk depth point ++ Stmt.walkAll depth (point.after s) stmts

end

/-- The walk through a program. -/
def Block.walk (block : Block) : List Visit :=
  Stmt.walkAll 0 .start block.body

/-! ## A walk goes through the outline -/

theorem Outline.visits_entries (point? : Option Point) (outline : Outline) :
    (visits point? outline).map Visit.entry = outline := by
  simp [visits, Visit.entry, Function.comp_def]

mutual

theorem Stmt.walk_entries (depth : Nat) (point : Point) :
    ∀ s : Stmt, (s.walk depth point).map Visit.entry = s.outline depth
  | .varDecl _ _ none _ | .varDecl _ _ (some _) _ | .constDecl .. | .echo .. | .assign ..
  | .ret .. => by
    simp only [walk, List.map_cons, Outline.visits_entries]
    rfl
  | .branch condition ⟨_, thenBody⟩ ⟨_, elseBody⟩ _ => by
    simp only [walk, outline, List.map_cons, List.map_append, Outline.visits_entries]
    split
    · simp only [List.map_append, Stmt.walkAll_entries, List.append_assoc]
      rfl
    · simp only [Outline.visits_entries, List.append_assoc]
      rfl
  | .loop condition ⟨_, body⟩ _ => by
    simp only [walk, outline, List.map_cons, List.map_append, Outline.visits_entries]
    split
    · rw [Stmt.walkAll_entries]
      rfl
    · rw [Outline.visits_entries]
      rfl
  | .fnDecl _ _ _ ⟨_, body⟩ _ => by
    simp only [walk, outline, List.map_cons, List.map_append, Outline.visits_entries]
    rw [Outline.ofHead, List.append_assoc]
    split
    · rw [Stmt.walkAll_entries]
      rfl
    · rw [Outline.visits_entries]
      rfl

theorem Stmt.walkAll_entries (depth : Nat) (point : Point) :
    ∀ stmts : List Stmt, (Stmt.walkAll depth point stmts).map Visit.entry =
      Stmt.outlines depth stmts
  | [] => rfl
  | s :: stmts => by
    rw [Stmt.walkAll, List.map_append, s.walk_entries, Stmt.walkAll_entries, Stmt.outlines]

end

/-! ## A walk leads to the annotated program -/

theorem Outline.visits_annotated (point : Point) (outline : Outline) :
    (visits point outline).map Visit.annotated =
      outline.map fun entry => (entry.1, entry.2.annotate point) := by
  simp [visits, Visit.annotated, Function.comp_def]

theorem Outline.visits_none_annotated (outline : Outline) :
    (visits none outline).map Visit.annotated = outline := by
  simp [visits, Visit.annotated, Function.comp_def]

mutual

theorem Expr.outline_check (depth : Nat) (point : Point) :
    ∀ e : Expr, (e.check point.state).1.outline depth =
      (e.outline depth).map fun entry => (entry.1, entry.2.annotate point)
  | .literal .. | .symbol .. => rfl
  | .binary _ left right _ => by
    simp only [Expr.outline, List.map_cons, List.map_append, ← left.outline_check,
      ← right.outline_check]
    rfl
  | .unary _ operand _ => by
    simp only [Expr.outline, List.map_cons, ← operand.outline_check]
    rfl
  | .call _ arguments _ => by
    simp only [Expr.outline, List.map_cons, ← Expr.outlines_check]
    rfl

theorem Expr.outlines_check (depth : Nat) (point : Point) :
    ∀ exprs : List Expr, Expr.outlines depth (Expr.checkAll point.state exprs).1 =
      (Expr.outlines depth exprs).map fun entry => (entry.1, entry.2.annotate point)
  | [] => rfl
  | e :: exprs => by
    simp only [Expr.outlines, List.map_append, ← e.outline_check, ← Expr.outlines_check]
    rfl

end

theorem Parameter.outline_checkAll (depth : Nat) (point : Point) (parameters : List Parameter) :
    (Parameter.checkAll parameters).1.flatMap (Parameter.outline depth) =
      (parameters.flatMap (Parameter.outline depth)).map fun entry =>
        (entry.1, entry.2.annotate point) := by
  rw [Parameter.checkAll_fst, List.flatMap_map, List.map_flatMap]
  rfl

theorem Visit.annotated_stmt (depth : Nat) (s : Stmt) (point : Point) :
    Visit.annotated ⟨depth, .stmt s, point⟩ =
      (depth, .stmt (s.check point.state point.returns).tree) :=
  rfl

mutual

theorem Stmt.outline_check (depth : Nat) (point : Point) :
    ∀ s : Stmt, (s.check point.state point.returns).tree.outline depth =
      (s.walk depth point).map Visit.annotated
  | .varDecl name typeName value info => by
    cases hObstacle : point.state.scopes.obstacle? name with
    | some violation =>
      simp only [walk, List.map_cons, Visit.annotated_stmt, Point.declaring?_of_taken hObstacle,
        Outline.visits_none_annotated, check, checkVar_of_taken _ _ _ hObstacle, Stmt.outline]
      cases value <;> rfl
    | none =>
      simp only [walk, List.map_cons, Visit.annotated_stmt, Point.declaring?_of_free hObstacle,
        Outline.visits_annotated, check, checkVar_of_free _ _ _ hObstacle, Stmt.outline]
      cases value with
      | none => rfl
      | some value =>
        simp only [Expr.checkOption, value.outline_check]
        rfl
  | .constDecl name value info => by
    cases hObstacle : point.state.scopes.obstacle? name with
    | some violation =>
      simp only [walk, List.map_cons, Visit.annotated_stmt, Point.declaring?_of_taken hObstacle,
        Outline.visits_none_annotated, check, checkConst_of_taken _ _ hObstacle, Stmt.outline]
    | none =>
      simp only [walk, List.map_cons, Visit.annotated_stmt, Point.declaring?_of_free hObstacle,
        Outline.visits_annotated, check, checkConst_of_free _ _ hObstacle, Stmt.outline,
        value.outline_check]
  | .echo value _ | .ret value _ | .assign _ value _ => by
    simp only [walk, List.map_cons, Outline.visits_annotated, ← value.outline_check]
    rfl
  | .branch condition ⟨_, thenBody⟩ ⟨_, elseBody⟩ _ => by
    by_cases hBool : (condition.check point.state).1.ty = some .bool
    · simp only [walk, if_pos hBool, List.map_cons, List.map_append, Visit.annotated_stmt,
        Outline.visits_annotated, ← Stmt.outlines_check, check, Verdict.ofCondition_ty_isSome,
        Stmt.outline, condition.outline_check, List.append_assoc]
      rfl
    · simp only [walk, if_neg hBool, List.map_cons, List.map_append, Visit.annotated_stmt,
        Outline.visits_annotated, Outline.visits_none_annotated, check,
        Verdict.ofCondition_ty_isSome, Stmt.outline, condition.outline_check, List.append_assoc]
  | .loop condition ⟨_, body⟩ _ => by
    by_cases hBool : (condition.check point.state).1.ty = some .bool
    · simp only [walk, if_pos hBool, List.map_cons, List.map_append, Visit.annotated_stmt,
        Outline.visits_annotated, ← Stmt.outlines_check, check, Verdict.ofCondition_ty_isSome,
        Stmt.outline, condition.outline_check]
    · simp only [walk, if_neg hBool, List.map_cons, List.map_append, Visit.annotated_stmt,
        Outline.visits_annotated, Outline.visits_none_annotated, check,
        Verdict.ofCondition_ty_isSome, Stmt.outline, condition.outline_check]
  | .fnDecl name parameters typeName ⟨_, body⟩ line => by
    cases hInside : point.inside? name parameters typeName line with
    | none =>
      simp only [walk, hInside, List.map_cons, List.map_append, Visit.annotated_stmt,
        Outline.visits_annotated, Outline.visits_none_annotated, check_fnDecl_of_none hInside,
        Stmt.outline, Outline.ofHead, checkHead, Parameter.outline_checkAll (depth + 1) point,
        List.append_assoc]
      rfl
    | some inside =>
      simp only [walk, hInside, List.map_cons, List.map_append, Visit.annotated_stmt,
        Outline.visits_annotated, ← Stmt.outlines_check, check_fnDecl_of_some hInside,
        Stmt.outline, Outline.ofHead, checkHead, Parameter.outline_checkAll (depth + 1) point,
        List.append_assoc]
      rfl

theorem Stmt.outlines_check (depth : Nat) (point : Point) :
    ∀ stmts : List Stmt,
      Stmt.outlines depth (Stmt.checkAll point.state point.returns stmts).tree =
        (Stmt.walkAll depth point stmts).map Visit.annotated
  | [] => rfl
  | s :: stmts => by
    rw [Stmt.walkAll, List.map_append, ← s.outline_check, ← Stmt.outlines_check]
    rfl

end

/-! ## The diagnostics of a walk -/

theorem Outline.visits_reports (point : Point) (outline : Outline) :
    (visits point outline).flatMap Visit.reports = outline.flatMap (·.2.reports point) := by
  rw [visits, List.flatMap_map]
  rfl

theorem Visit.mem_reports {visit : Visit} {d : Diagnostic} :
    d ∈ visit.reports ↔ ∃ point, visit.point? = some point ∧ d ∈ visit.node.reports point := by
  unfold Visit.reports
  cases visit.point? <;> simp

theorem Visit.reports_stmt (depth : Nat) (s : Stmt) (point : Point) :
    Visit.reports ⟨depth, .stmt s, point⟩ = (Node.stmt s).reports point :=
  rfl

theorem Outline.visits_none_reports (outline : Outline) :
    (visits none outline).flatMap Visit.reports = [] := by
  simp [visits, List.flatMap_map, Visit.reports]

mutual

/-- The diagnostics of the parts of an expression come before that of the expression. -/
theorem Expr.check_reports (depth : Nat) (point : Point) :
    ∀ e : Expr,
      (e.check point.state).2.Perm ((e.outline depth).flatMap (·.2.reports point))
  | .literal .. => .nil
  | .binary _ left right _ => by
    have hParts := (left.check_reports (depth + 1) point).append
      (right.check_reports (depth + 1) point)
    rw [Expr.outline, List.flatMap_cons, List.flatMap_append]
    exact List.perm_append_comm.trans (hParts.append_left _)
  | .unary _ operand _ => by
    have hPart := operand.check_reports (depth + 1) point
    rw [Expr.outline, List.flatMap_cons]
    exact List.perm_append_comm.trans (hPart.append_left _)
  | .symbol location _ => by
    simp only [Expr.outline, List.flatMap_cons, List.flatMap_nil, List.append_nil]
    exact .refl _
  | .call _ arguments _ => by
    have hParts := Expr.checkAll_reports (depth + 1) point arguments
    rw [Expr.outline, List.flatMap_cons]
    exact List.perm_append_comm.trans (hParts.append_left _)

theorem Expr.checkAll_reports (depth : Nat) (point : Point) :
    ∀ exprs : List Expr, (Expr.checkAll point.state exprs).2.Perm
      ((Expr.outlines depth exprs).flatMap (·.2.reports point))
  | [] => .nil
  | e :: exprs => by
    rw [Expr.outlines, List.flatMap_append]
    exact (e.check_reports depth point).append (Expr.checkAll_reports depth point exprs)

end

theorem Parameter.checkAll_reports (depth : Nat) (point : Point) (parameters : List Parameter) :
    (Parameter.checkAll parameters).2 =
      (parameters.flatMap (Parameter.outline depth)).flatMap (·.2.reports point) := by
  induction parameters with
  | nil => rfl
  | cons parameter parameters ih =>
    simp only [Parameter.checkAll, ih, List.flatMap_cons, List.flatMap_append, Parameter.outline,
      List.flatMap_nil, List.append_nil]
    rfl

/-- The head of a function reports on the function itself and on the types that it names. -/
theorem Stmt.checkHead_reports (depth : Nat) (point : Point) (name : String)
    (parameters : List Parameter) (typeName : TypeName) (line : UInt32) :
    (checkHead point.state name parameters typeName line).2.2 =
      ((point.state.functions.get? name).map fun signature =>
        (⟨line, .functionAlreadyDefined name signature.line⟩ : Diagnostic)).toList ++
      (parameters.flatMap (Parameter.outline depth)).flatMap (·.2.reports point) ++
      (if hasDuplicates (parameters.map (·.name)) then [⟨line, .duplicateParameters⟩] else []) ++
      (Node.typeName typeName).reports point := by
  rw [← Parameter.checkAll_reports, ← Parameter.checkAll_map_name]
  rfl

mutual

theorem Stmt.check_reports (depth : Nat) (point : Point) :
    ∀ s : Stmt, (s.check point.state point.returns).diagnostics.Perm
      ((s.walk depth point).flatMap Visit.reports)
  | .varDecl name typeName value info => by
    cases hObstacle : point.state.scopes.obstacle? name with
    | some violation =>
      simp only [walk, List.flatMap_cons, Visit.reports_stmt, Point.declaring?_of_taken hObstacle,
        Outline.visits_none_reports, check, checkVar_of_taken _ _ _ hObstacle, Node.reports,
        hObstacle]
      exact .refl _
    | none =>
      simp only [walk, List.flatMap_cons, Visit.reports_stmt, Point.declaring?_of_free hObstacle,
        Outline.visits_reports, check, checkVar_of_free _ _ _ hObstacle]
      have hValue : (Expr.checkOption point.state value).2.Perm
          ((value.elim [] (Expr.outline (depth + 1))).flatMap (·.2.reports point)) := by
        cases value with
        | none => exact .nil
        | some value => exact value.check_reports (depth + 1) point
      have hOwn : (Node.stmt (.varDecl name typeName value info)).reports point =
        (Verdict.ofDeclaration name (Ty.ofName? typeName.name)
          ((Expr.checkOption point.state value).1.map Expr.ty)).diagnostics info.line := by
        simp only [Node.reports, hObstacle]
      rw [hOwn]
      exact List.perm_append_comm.trans ((hValue.append_left _).append_left _)
  | .constDecl name value info => by
    cases hObstacle : point.state.scopes.obstacle? name with
    | some violation =>
      simp only [walk, List.flatMap_cons, Visit.reports_stmt, Point.declaring?_of_taken hObstacle,
        Outline.visits_none_reports, check, checkConst_of_taken _ _ hObstacle, Node.reports,
        hObstacle]
      exact .refl _
    | none =>
      simp only [walk, List.flatMap_cons, Visit.reports_stmt, Point.declaring?_of_free hObstacle,
        Outline.visits_reports, check, checkConst_of_free _ _ hObstacle, Node.reports, hObstacle]
      exact value.check_reports (depth + 1) point
  | .echo value _ => by
    rw [walk, List.flatMap_cons, Outline.visits_reports]
    exact value.check_reports (depth + 1) point
  | .ret value _ => by
    rw [walk, List.flatMap_cons, Outline.visits_reports]
    exact List.perm_append_comm.trans ((value.check_reports (depth + 1) point).append_left _)
  | .assign target value _ => by
    rw [walk, List.flatMap_cons, Outline.visits_reports, List.flatMap_cons]
    have hValue := value.check_reports (depth + 1) point
    exact List.perm_append_comm.trans ((hValue.append_left _).append_left _)
  | .branch condition ⟨_, thenBody⟩ ⟨_, elseBody⟩ line => by
    have hCondition := condition.check_reports (depth + 1) point
    by_cases hBool : (condition.check point.state).1.ty = some .bool
    · have hOwn :
          (Verdict.ofCondition (condition.check point.state).1.ty).diagnostics line = [] := by
        rw [hBool]
        rfl
      have hThen := Stmt.checkAll_reports (depth + 1) point thenBody
      have hElse := Stmt.checkAll_reports (depth + 1) (point.afterAll thenBody) elseBody
      simp only [walk, if_pos hBool, List.flatMap_cons, List.flatMap_append, Visit.reports_stmt,
        Outline.visits_reports, check, Verdict.ofCondition_ty_isSome, Node.reports, hOwn,
        List.nil_append, List.append_assoc]
      exact hCondition.append (hThen.append hElse)
    · simp only [walk, if_neg hBool, List.flatMap_cons, List.flatMap_append, Visit.reports_stmt,
        Outline.visits_reports, Outline.visits_none_reports, check,
        Verdict.ofCondition_ty_isSome, Node.reports, List.append_nil]
      exact List.perm_append_comm.trans (hCondition.append_left _)
  | .loop condition ⟨_, body⟩ line => by
    have hCondition := condition.check_reports (depth + 1) point
    by_cases hBool : (condition.check point.state).1.ty = some .bool
    · have hOwn :
          (Verdict.ofCondition (condition.check point.state).1.ty).diagnostics line = [] := by
        rw [hBool]
        rfl
      have hBody := Stmt.checkAll_reports (depth + 1) point body
      simp only [walk, if_pos hBool, List.flatMap_cons, List.flatMap_append, Visit.reports_stmt,
        Outline.visits_reports, check, Verdict.ofCondition_ty_isSome, Node.reports, hOwn,
        List.nil_append]
      exact hCondition.append hBody
    · simp only [walk, if_neg hBool, List.flatMap_cons, List.flatMap_append, Visit.reports_stmt,
        Outline.visits_reports, Outline.visits_none_reports, check,
        Verdict.ofCondition_ty_isSome, Node.reports, List.append_nil]
      exact List.perm_append_comm.trans (hCondition.append_left _)
  | .fnDecl name parameters typeName ⟨_, body⟩ line => by
    -- What is reported about a function itself stands before, between and behind what is reported
    -- about its parts, so that it is counted here and not moved.
    rw [List.perm_iff_count]
    intro d
    cases hInside : point.inside? name parameters typeName line with
    | none =>
      simp only [walk, hInside, Outline.ofHead, List.flatMap_cons, List.flatMap_append,
        List.flatMap_nil,
        Visit.reports_stmt, Outline.visits_reports, Outline.visits_none_reports,
        check_fnDecl_of_none hInside, checkHead_reports (depth + 1) point, Node.reports,
        Node.fnReports, List.count_append, List.append_nil, Option.toList_some, List.map_cons,
        List.map_nil]
      omega
    | some inside =>
      have hBody := (Stmt.checkAll_reports (depth + 1) inside body).count_eq d
      simp only [walk, hInside, Outline.ofHead, List.flatMap_cons, List.flatMap_append,
        List.flatMap_nil,
        Visit.reports_stmt, Outline.visits_reports, check_fnDecl_of_some hInside,
        checkHead_reports (depth + 1) point, Node.reports, Node.fnReports, List.count_append,
        List.append_nil, hBody, Point.afterAll]
      omega

theorem Stmt.checkAll_reports (depth : Nat) (point : Point) :
    ∀ stmts : List Stmt, (Stmt.checkAll point.state point.returns stmts).diagnostics.Perm
      ((Stmt.walkAll depth point stmts).flatMap Visit.reports)
  | [] => .nil
  | s :: stmts => by
    rw [Stmt.walkAll, List.flatMap_append]
    exact (s.check_reports depth point).append (Stmt.checkAll_reports depth (point.after s) stmts)

end

/-! ## Programs -/

namespace Block

variable (block : Block)

theorem walk_entries : block.walk.map Visit.entry = block.outline :=
  Stmt.walkAll_entries 0 .start block.body

theorem walk_annotated : block.walk.map Visit.annotated = block.check.1.outline :=
  (Stmt.outlines_check 0 .start block.body).symm

theorem walk_reports : block.check.2.Perm (block.walk.flatMap Visit.reports) :=
  Stmt.checkAll_reports 0 .start block.body

end Block

end Jingle.Syntax

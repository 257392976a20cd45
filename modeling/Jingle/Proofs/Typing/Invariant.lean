import Jingle.Proofs.Syntax.Tree
import Jingle.Proofs.Typing.Walk

/-!
# What a walk keeps

What is known changes at statements only, and each statement does one thing to it before the
statements of its blocks follow. Something that every such step keeps holds at every place that
checking comes to.

* `Invariant I` says that every step of a walk keeps `I`, which speaks about a place and the visits
  before it.
* `Invariant.block` leads from the beginning of a program to every place of its walk.
* `Stmt.walk_isPrefix` finds the walk through a statement in every walk that comes to it.
-/

namespace Jingle.Typing

open Syntax

/-! ## Visits one after another -/

/-- Something holds of every visit, given all visits before it. -/
def Along (P : List Visit → Visit → Prop) (before : List Visit) : List Visit → Prop
  | [] => True
  | visit :: visits => P before visit ∧ Along P (before ++ [visit]) visits

theorem along_append {P : List Visit → Visit → Prop} {before first second : List Visit} :
    Along P before (first ++ second) ↔ Along P before first ∧ Along P (before ++ first) second := by
  induction first generalizing before with
  | nil => simp [Along]
  | cons visit first ih => simp [Along, ih, and_assoc]

theorem along_of_forall {P : List Visit → Visit → Prop} {before visits : List Visit}
    (h : ∀ visit ∈ visits, ∀ before, P before visit) : Along P before visits := by
  induction visits generalizing before with
  | nil => trivial
  | cons visit visits ih =>
    obtain ⟨hFirst, hOthers⟩ := List.forall_mem_cons.mp h
    exact ⟨hFirst before, ih hOthers⟩

/-! ## Steps -/

/-- The place behind a statement itself, before the statements of its blocks. -/
def Point.step (point : Point) : Stmt → Point
  | .branch .. | .loop .. | .fnDecl .. => point
  | s => point.after s

/-- The place behind a function whose body ends at another place. -/
def Point.leave (point last : Point) : Point :=
  ⟨{ last.state with scopes := last.state.scopes.leave }, point.returns⟩

namespace Point

variable {point inside : Point} {condition : Expr}

theorem after_branch_of_bool (h : (condition.check point.state).1.ty = some .bool)
    (thenBody elseBody : Block) (line : UInt32) :
    point.after (.branch condition thenBody elseBody line) =
      (point.afterAll thenBody.body).afterAll elseBody.body := by
  obtain ⟨thenLine, thenBody⟩ := thenBody
  obtain ⟨elseLine, elseBody⟩ := elseBody
  simp only [after, Stmt.check, Verdict.ofCondition_ty_isSome, if_pos h]
  rfl

theorem after_branch_of_ne (h : (condition.check point.state).1.ty ≠ some .bool)
    (thenBody elseBody : Block) (line : UInt32) :
    point.after (.branch condition thenBody elseBody line) = point := by
  obtain ⟨thenLine, thenBody⟩ := thenBody
  obtain ⟨elseLine, elseBody⟩ := elseBody
  simp only [after, Stmt.check, Verdict.ofCondition_ty_isSome, if_neg h]

theorem after_loop_of_bool (h : (condition.check point.state).1.ty = some .bool) (body : Block)
    (line : UInt32) : point.after (.loop condition body line) = point.afterAll body.body := by
  obtain ⟨bodyLine, body⟩ := body
  simp only [after, Stmt.check, Verdict.ofCondition_ty_isSome, if_pos h]
  rfl

theorem after_loop_of_ne (h : (condition.check point.state).1.ty ≠ some .bool) (body : Block)
    (line : UInt32) : point.after (.loop condition body line) = point := by
  obtain ⟨bodyLine, body⟩ := body
  simp only [after, Stmt.check, Verdict.ofCondition_ty_isSome, if_neg h]

variable {name : String} {parameters : List Parameter} {typeName : TypeName} {line : UInt32}

theorem after_fnDecl_of_none (h : point.inside? name parameters typeName line = none)
    (body : Block) : point.after (.fnDecl name parameters typeName body line) = point := by
  rw [after, Stmt.check_fnDecl_of_none h]

theorem after_fnDecl_of_some (h : point.inside? name parameters typeName line = some inside)
    (body : Block) :
    point.after (.fnDecl name parameters typeName body line) =
      point.leave (inside.afterAll body.body) := by
  rw [after, Stmt.check_fnDecl_of_some h]
  rfl

/-- What a step does to what is known: nothing, or it adds the name that the statement declares. -/
theorem step_cases (point : Point) (s : Stmt) :
    (point.step s).state = point.state ∨
      ∃ symbol, (Node.stmt s).declared? = some (.name symbol.name) ∧ symbol.line = s.line ∧
        (point.step s).state =
          { point.state with scopes := point.state.scopes.insert symbol } := by
  cases s with
  | echo | branch | loop | assign | fnDecl | ret => exact .inl rfl
  | varDecl name typeName value info =>
    change (Stmt.checkVar point.state name typeName value info).2.1 = _ ∨
      ∃ symbol, _ ∧ _ ∧ (Stmt.checkVar point.state name typeName value info).2.1 = _
    cases hObstacle : point.state.scopes.obstacle? name with
    | some violation =>
      rw [Stmt.checkVar_of_taken _ _ _ hObstacle]
      exact .inl rfl
    | none =>
      rw [Stmt.checkVar_of_free _ _ _ hObstacle]
      dsimp only
      split
      · exact .inl rfl
      · exact .inr ⟨_, rfl, rfl, rfl⟩
  | constDecl name value info =>
    change (Stmt.checkConst point.state name value info).2.1 = _ ∨
      ∃ symbol, _ ∧ _ ∧ (Stmt.checkConst point.state name value info).2.1 = _
    cases hObstacle : point.state.scopes.obstacle? name with
    | some violation =>
      rw [Stmt.checkConst_of_taken _ _ hObstacle]
      exact .inl rfl
    | none =>
      rw [Stmt.checkConst_of_free _ _ hObstacle]
      exact .inr ⟨_, rfl, rfl, rfl⟩

theorem step_inFunction (point : Point) (s : Stmt) :
    (point.step s).state.scopes.inFunction = point.state.scopes.inFunction := by
  rcases point.step_cases s with hState | ⟨symbol, -, -, hState⟩
  · rw [hState]
  · rw [hState]
    exact Scopes.inFunction_insert ..

theorem step_functions (point : Point) (s : Stmt) :
    (point.step s).state.functions = point.state.functions := by
  rcases point.step_cases s with hState | ⟨symbol, -, -, hState⟩ <;> rw [hState]

end Point

end Jingle.Typing

namespace Jingle.Syntax.Node

/-- A node that is part of a statement. -/
def IsPart : Node → Prop
  | stmt _ => False
  | _ => True

theorem IsPart.ne_stmt {node : Node} (h : node.IsPart) (s : Stmt) : node ≠ stmt s := by
  rintro rfl
  exact h

/-- A declaration of a function. -/
def IsFn : Node → Prop
  | stmt (.fnDecl ..) => True
  | _ => False

theorem IsPart.not_isFn {node : Node} (h : node.IsPart) : ¬ node.IsFn := by
  cases node with
  | stmt => exact absurd h id
  | expr | location | typeName | parameter => exact id

end Jingle.Syntax.Node

namespace Jingle.Typing

open Syntax

/-- A visit at which nothing changes. -/
def Visit.Idle (visit : Visit) : Prop :=
  visit.point? = none ∨ visit.node.IsPart

/-- Every step of a walk keeps what is said of a place and the visits before it. -/
structure Invariant (I : List Visit → Point → Prop) : Prop where
  idle {before : List Visit} {point : Point} {visit : Visit} : visit.Idle → I before point →
    I (before ++ [visit]) point
  /-- A statement does its own, and the declaration of a function in a function does nothing. -/
  step {before : List Visit} {point : Point} {s : Stmt} (depth : Nat) :
    ((Node.stmt s).IsFn → point.state.scopes.inFunction) → I before point →
    I (before ++ [⟨depth, .stmt s, point⟩]) (point.step s)
  enter {before : List Visit} {point inside : Point} {name : String} {parameters : List Parameter}
    {typeName : TypeName} {line : UInt32} (depth : Nat) (body : Block) :
    point.inside? name parameters typeName line = some inside → I before point →
    I (before ++ ⟨depth, .stmt (.fnDecl name parameters typeName body line), point⟩ ::
      Outline.visits point (.ofHead (depth + 1) parameters typeName)) inside
  leave {front before : List Visit} {point inside last : Point} {name : String}
    {parameters : List Parameter} {typeName : TypeName} {line : UInt32} :
    point.inside? name parameters typeName line = some inside → I front point → I before last →
    I before (point.leave last)

/-- What an invariant says at a visit. A statement is come to right after the visits before it, and
an expression at the place of the statement that it is part of. -/
structure Held (I : List Visit → Point → Prop) (before : List Visit) (visit : Visit)
    (point : Point) : Prop where
  stmt : ¬ visit.node.IsPart → I before point
  expr : ∀ e, visit.node = .expr e → ∃ front own, before = front ++ own ∧ I front point ∧
    ∀ visit ∈ own, ¬ visit.node.IsFn

/-- An invariant holds at every visit. -/
def HeldAlong (I : List Visit → Point → Prop) (before visits : List Visit) : Prop :=
  Along (fun before visit => ∀ point, visit.point? = some point → Held I before visit point)
    before visits

theorem HeldAlong.of_mem {I : List Visit → Point → Prop} {before visits : List Visit}
    {visit : Visit} {point : Point} (h : HeldAlong I before visits) (hMem : visit ∈ visits)
    (hPoint : visit.point? = some point) : ∃ front, Held I front visit point := by
  obtain ⟨first, second, rfl⟩ := List.append_of_mem hMem
  exact ⟨before ++ first, (along_append.mp h).2.1 point hPoint⟩

namespace Invariant

variable {I : List Visit → Point → Prop} {before : List Visit} {point : Point}

theorem idles (hI : Invariant I) {visits : List Visit} (hIdle : ∀ visit ∈ visits, visit.Idle)
    (h : I before point) : I (before ++ visits) point := by
  induction visits generalizing before with
  | nil => rwa [List.append_nil]
  | cons visit visits ih =>
    obtain ⟨hFirst, hOthers⟩ := List.forall_mem_cons.mp hIdle
    rw [← List.singleton_append, ← List.append_assoc]
    exact ih hOthers (hI.idle hFirst h)

end Invariant

theorem heldAlong_none {I : List Visit → Point → Prop} {before : List Visit} (outline : Outline) :
    HeldAlong I before (Outline.visits none outline) := by
  apply along_of_forall
  intro visit hMem before point hPoint
  obtain ⟨entry, -, rfl⟩ := List.mem_map.mp hMem
  cases hPoint

end Jingle.Typing

namespace Jingle.Syntax

open Typing

mutual

theorem Expr.all_isPart : ∀ e : Expr, e.All Node.IsPart
  | .literal .. => trivial
  | .binary _ left right _ => ⟨trivial, left.all_isPart, right.all_isPart⟩
  | .unary _ operand _ => ⟨trivial, operand.all_isPart⟩
  | .symbol .. => ⟨trivial, trivial⟩
  | .call _ arguments _ => ⟨trivial, Expr.allIn_isPart arguments⟩

theorem Expr.allIn_isPart : ∀ exprs : List Expr, Expr.AllIn Node.IsPart exprs
  | [] => trivial
  | e :: exprs => ⟨e.all_isPart, Expr.allIn_isPart exprs⟩

end

theorem Expr.isPart_of_mem_outline {depth : Nat} {e : Expr} {entry : Nat × Node}
    (hMem : entry ∈ e.outline depth) : entry.2.IsPart :=
  (Expr.forall_outline_iff Node.IsPart depth e).mpr e.all_isPart entry hMem

/-- A node and then a value, as in declarations of variables and in assignments. -/
theorem Outline.isPart_of_mem_cons {depth : Nat} (node : Node) (h : node.IsPart)
    (value : Option Expr) {entry : Nat × Node}
    (hMem : entry ∈ (depth, node) :: value.elim [] (Expr.outline depth)) : entry.2.IsPart := by
  rcases List.mem_cons.mp hMem with rfl | hMem
  · exact h
  · cases value with
    | none => cases hMem
    | some value => exact Expr.isPart_of_mem_outline hMem

theorem Outline.isPart_of_mem_ofHead {depth : Nat} {parameters : List Parameter}
    {typeName : TypeName} {entry : Nat × Node} (hMem : entry ∈ ofHead depth parameters typeName) :
    entry.2.IsPart ∧ ∀ e, entry.2 ≠ .expr e := by
  rcases List.mem_append.mp hMem with hMem | hMem
  · obtain ⟨parameter, -, hEntry⟩ := List.mem_flatMap.mp hMem
    simp only [Parameter.outline, List.mem_cons, List.not_mem_nil, or_false] at hEntry
    rcases hEntry with rfl | rfl <;> exact ⟨trivial, fun _ => Node.noConfusion⟩
  · rw [List.mem_singleton.mp hMem]
    exact ⟨trivial, fun _ => Node.noConfusion⟩

end Jingle.Syntax

namespace Jingle.Typing

open Syntax

section Parts

variable {I : List Visit → Point → Prop} {before : List Visit} {point : Point}

/-- The nodes of the head of a function are neither statements nor expressions. -/
theorem heldAlong_head (depth : Nat) (parameters : List Parameter) (typeName : TypeName) :
    HeldAlong I before (Outline.visits point (.ofHead depth parameters typeName)) := by
  apply along_of_forall
  intro visit hMem before place hPlace
  obtain ⟨entry, hEntry, rfl⟩ := List.mem_map.mp hMem
  obtain ⟨hPart, hExpr⟩ := Outline.isPart_of_mem_ofHead hEntry
  exact ⟨fun h => absurd hPart h, fun e h => absurd h (hExpr e)⟩

/-- The parts of a statement are come to at its own place. -/
theorem heldAlong_parts {own : List Visit} {outline : Outline} (h : I before point)
    (hOwn : ∀ visit ∈ own, ¬ visit.node.IsFn) (hParts : ∀ entry ∈ outline, entry.2.IsPart) :
    HeldAlong I (before ++ own) (Outline.visits point outline) := by
  induction outline generalizing own with
  | nil => trivial
  | cons entry outline ih =>
    obtain ⟨hPart, hOthers⟩ := List.forall_mem_cons.mp hParts
    constructor
    · rintro place hPlace
      obtain rfl := Option.some.inj hPlace
      exact ⟨fun hStmt => absurd hPart hStmt, fun _ _ => ⟨before, own, rfl, h, hOwn⟩⟩
    · rw [List.append_assoc]
      apply ih ?_ hOthers
      exact List.forall_mem_append.mpr ⟨hOwn, List.forall_mem_singleton.mpr hPart.not_isFn⟩

end Parts

namespace Invariant

variable {I : List Visit → Point → Prop} (hI : Invariant I) {before : List Visit} {point : Point}

include hI

theorem idle_parts {outline : Outline} (point? : Option Point)
    (hParts : ∀ entry ∈ outline, entry.2.IsPart) (h : I before point) :
    I (before ++ Outline.visits point? outline) point := by
  apply hI.idles ?_ h
  intro visit hMem
  obtain ⟨entry, hEntry, rfl⟩ := List.mem_map.mp hMem
  exact .inr (hParts entry hEntry)

theorem idle_none (outline : Outline) (h : I before point) :
    I (before ++ Outline.visits none outline) point := by
  apply hI.idles ?_ h
  intro visit hMem
  obtain ⟨entry, -, rfl⟩ := List.mem_map.mp hMem
  exact .inl rfl

/-- A statement that is no declaration of a function, with its parts. -/
theorem simple {s : Stmt} {point? : Option Point} {outline : Outline} (depth : Nat)
    (hFn : ¬ (Node.stmt s).IsFn) (hPoint : point? = none ∨ point? = some point)
    (hParts : ∀ entry ∈ outline, entry.2.IsPart) (h : I before point) :
    HeldAlong I before (⟨depth, .stmt s, point⟩ :: Outline.visits point? outline) ∧
      I (before ++ ⟨depth, .stmt s, point⟩ :: Outline.visits point? outline) (point.step s) := by
  refine ⟨⟨?_, ?_⟩, ?_⟩
  · rintro place hPlace
    obtain rfl := Option.some.inj hPlace
    exact ⟨fun _ => h, fun _ => Node.noConfusion⟩
  · rcases hPoint with rfl | rfl
    · exact heldAlong_none outline
    · exact heldAlong_parts h (List.forall_mem_singleton.mpr hFn) hParts
  · have hStep := hI.step depth (fun hIs => absurd hIs hFn) h
    have hAfter := hI.idle_parts point? hParts hStep
    rwa [List.append_assoc, List.singleton_append] at hAfter

end Invariant

theorem Point.declaring?_cases (point : Point) (name : String) :
    point.declaring? name = none ∨ point.declaring? name = some point := by
  unfold declaring?
  split
  · exact .inl rfl
  · exact .inr rfl

mutual

/-- An invariant that holds before a statement holds at every visit of its walk and after it. -/
theorem Invariant.walk {I : List Visit → Point → Prop} (hI : Invariant I) {before : List Visit}
    {point : Point} (depth : Nat) :
    ∀ s : Stmt, I before point → HeldAlong I before (s.walk depth point) ∧
      I (before ++ s.walk depth point) (point.after s)
  | .varDecl name typeName value _, h =>
    hI.simple depth id (point.declaring?_cases name)
      (fun _ => Outline.isPart_of_mem_cons (.typeName typeName) trivial value) h
  | .constDecl name value info, h =>
    hI.simple depth id (point.declaring?_cases name) (fun _ => Expr.isPart_of_mem_outline) h
  | .echo value _, h | .ret value _, h =>
    hI.simple depth id (.inr rfl) (fun _ => Expr.isPart_of_mem_outline) h
  | .assign target value _, h =>
    hI.simple depth id (.inr rfl)
      (fun _ => Outline.isPart_of_mem_cons (.location target) trivial (some value)) h
  | .branch condition ⟨thenLine, thenBody⟩ ⟨elseLine, elseBody⟩ line, h => by
    have hParts : ∀ entry ∈ condition.outline (depth + 1), entry.2.IsPart :=
      fun _ => Expr.isPart_of_mem_outline
    obtain ⟨hFirst, hStep⟩ := hI.simple depth
      (s := .branch condition ⟨thenLine, thenBody⟩ ⟨elseLine, elseBody⟩ line) id (.inr rfl) hParts h
    change I _ point at hStep
    rw [Stmt.walk, ← List.cons_append]
    by_cases hBool : (condition.check point.state).1.ty = some .bool
    · rw [if_pos hBool, Point.after_branch_of_bool hBool]
      obtain ⟨hThen, hBetween⟩ := hI.walkAll (depth + 1) thenBody hStep
      obtain ⟨hElse, hAfter⟩ := hI.walkAll (depth + 1) elseBody hBetween
      rw [List.append_assoc] at hElse hAfter
      refine ⟨along_append.mpr ⟨hFirst, along_append.mpr ⟨hThen, ?_⟩⟩, ?_⟩
      · rwa [List.append_assoc]
      · simpa only [List.append_assoc] using hAfter
    · rw [if_neg hBool, Point.after_branch_of_ne hBool]
      refine ⟨along_append.mpr ⟨hFirst, heldAlong_none _⟩, ?_⟩
      rw [← List.append_assoc]
      exact hI.idle_none _ hStep
  | .loop condition ⟨bodyLine, body⟩ line, h => by
    have hParts : ∀ entry ∈ condition.outline (depth + 1), entry.2.IsPart :=
      fun _ => Expr.isPart_of_mem_outline
    obtain ⟨hFirst, hStep⟩ := hI.simple depth (s := .loop condition ⟨bodyLine, body⟩ line) id
      (.inr rfl) hParts h
    change I _ point at hStep
    rw [Stmt.walk, ← List.cons_append]
    by_cases hBool : (condition.check point.state).1.ty = some .bool
    · rw [if_pos hBool, Point.after_loop_of_bool hBool]
      obtain ⟨hBody, hAfter⟩ := hI.walkAll (depth + 1) body hStep
      rw [List.append_assoc] at hAfter
      exact ⟨along_append.mpr ⟨hFirst, hBody⟩, hAfter⟩
    · rw [if_neg hBool, Point.after_loop_of_ne hBool]
      refine ⟨along_append.mpr ⟨hFirst, heldAlong_none _⟩, ?_⟩
      rw [← List.append_assoc]
      exact hI.idle_none _ hStep
  | .fnDecl name parameters typeName ⟨bodyLine, body⟩ line, h => by
    let visit : Visit :=
      ⟨depth, .stmt (.fnDecl name parameters typeName ⟨bodyLine, body⟩ line), point⟩
    have hFirst : HeldAlong I before
        (visit :: Outline.visits point (.ofHead (depth + 1) parameters typeName)) := by
      refine ⟨?_, heldAlong_head ..⟩
      rintro place hPlace
      obtain rfl := Option.some.inj hPlace
      exact ⟨fun _ => h, fun _ => Node.noConfusion⟩
    rw [Stmt.walk, ← List.cons_append]
    cases hInside : point.inside? name parameters typeName line with
    | none =>
      rw [Point.after_fnDecl_of_none hInside]
      have hRefused := Point.inside?_eq_none_iff.mp hInside
      have hStep : I (before ++ [visit]) point := hI.step depth (fun _ => hRefused) h
      have hParts : ∀ entry ∈ Outline.ofHead (depth + 1) parameters typeName, entry.2.IsPart :=
        fun _ hMem => (Outline.isPart_of_mem_ofHead hMem).1
      have hHead := hI.idle_parts (some point) hParts hStep
      have hAfter := hI.idle_none (Stmt.outlines (depth + 1) body) hHead
      refine ⟨along_append.mpr ⟨hFirst, heldAlong_none _⟩, ?_⟩
      simpa only [List.append_assoc, List.singleton_append] using hAfter
    | some inside =>
      rw [Point.after_fnDecl_of_some hInside]
      -- The body begins at a place of its own, and the returns of the place before come back
      -- behind it.
      have hEnter := hI.enter depth ⟨bodyLine, body⟩ hInside h
      obtain ⟨hBody, hLast⟩ := hI.walkAll (depth + 1) body hEnter
      have hAfter := hI.leave hInside h hLast
      refine ⟨along_append.mpr ⟨hFirst, hBody⟩, ?_⟩
      rwa [List.append_assoc] at hAfter

theorem Invariant.walkAll {I : List Visit → Point → Prop} (hI : Invariant I) {before : List Visit}
    {point : Point} (depth : Nat) :
    ∀ stmts : List Stmt, I before point → HeldAlong I before (Stmt.walkAll depth point stmts) ∧
      I (before ++ Stmt.walkAll depth point stmts) (point.afterAll stmts)
  | [], h => by
    rw [Stmt.walkAll, List.append_nil]
    exact ⟨trivial, h⟩
  | s :: stmts, h => by
    obtain ⟨hFirst, hBetween⟩ := hI.walk depth s h
    obtain ⟨hOthers, hAfter⟩ := hI.walkAll depth stmts hBetween
    rw [List.append_assoc] at hAfter
    exact ⟨along_append.mpr ⟨hFirst, hOthers⟩, hAfter⟩

end

/-- An invariant that holds at the beginning of a program holds wherever checking comes to. -/
theorem Invariant.block {I : List Visit → Point → Prop} (hI : Invariant I) (hStart : I [] .start)
    {block : Block} {before after : List Visit} {visit : Visit} {point : Point}
    (hWalk : block.walk = before ++ visit :: after) (hPoint : visit.point? = some point) :
    Held I before visit point := by
  obtain ⟨hHeld, -⟩ := hI.walkAll 0 block.body hStart
  have hSplit : HeldAlong I [] (before ++ visit :: after) := hWalk ▸ hHeld
  exact (along_append.mp hSplit).2.1 point hPoint

/-! ## Walks in walks -/

/-- Whatever statement is come to, its walk follows. -/
def Rooted : List Visit → Prop
  | [] => True
  | visit :: visits =>
    (∀ s point, visit.node = .stmt s → visit.point? = some point →
      s.walk visit.depth point <+: visit :: visits) ∧ Rooted visits

theorem Rooted.append {first second : List Visit} (hFirst : Rooted first)
    (hSecond : Rooted second) : Rooted (first ++ second) := by
  induction first with
  | nil => exact hSecond
  | cons visit first ih =>
    refine ⟨?_, ih hFirst.2⟩
    intro s point hNode hPoint
    exact (hFirst.1 s point hNode hPoint).trans (List.prefix_append (visit :: first) second)

theorem rooted_visits {point? : Option Point} {outline : Outline}
    (h : point? = none ∨ ∀ entry ∈ outline, entry.2.IsPart) :
    Rooted (Outline.visits point? outline) := by
  induction outline with
  | nil => trivial
  | cons entry outline ih =>
    refine ⟨?_, ih (h.imp id fun hParts => (List.forall_mem_cons.mp hParts).2)⟩
    intro s point hNode hPoint
    rcases h with rfl | hParts
    · cases hPoint
    · exact absurd hNode ((List.forall_mem_cons.mp hParts).1.ne_stmt s)

theorem Rooted.cons {s : Stmt} {depth : Nat} {point : Point} {visits : List Visit}
    (hWalk : s.walk depth point = ⟨depth, .stmt s, point⟩ :: visits) (hVisits : Rooted visits) :
    Rooted (s.walk depth point) := by
  rw [hWalk]
  refine ⟨?_, hVisits⟩
  intro s' point' hNode hPoint
  obtain rfl := Node.stmt.inj hNode
  obtain rfl := Option.some.inj hPoint
  exact ⟨[], (List.append_nil _).trans hWalk⟩

mutual

theorem Stmt.walk_rooted (depth : Nat) (point : Point) :
    ∀ s : Stmt, Rooted (s.walk depth point)
  | .varDecl _ typeName value _ =>
    .cons rfl (rooted_visits
      (.inr fun _ => Outline.isPart_of_mem_cons (.typeName typeName) trivial value))
  | .constDecl .. | .echo .. | .ret .. =>
    .cons rfl (rooted_visits (.inr fun _ => Expr.isPart_of_mem_outline))
  | .assign target value _ =>
    .cons rfl (rooted_visits
      (.inr fun _ => Outline.isPart_of_mem_cons (.location target) trivial (some value)))
  | .branch condition ⟨_, thenBody⟩ ⟨_, elseBody⟩ line => by
    apply Rooted.cons rfl
    apply Rooted.append (rooted_visits (.inr fun _ => Expr.isPart_of_mem_outline))
    split
    · exact (Stmt.walkAll_rooted (depth + 1) point thenBody).append
        (Stmt.walkAll_rooted (depth + 1) (point.afterAll thenBody) elseBody)
    · exact rooted_visits (.inl rfl)
  | .loop condition ⟨_, body⟩ line => by
    apply Rooted.cons rfl
    apply Rooted.append (rooted_visits (.inr fun _ => Expr.isPart_of_mem_outline))
    split
    · exact Stmt.walkAll_rooted (depth + 1) point body
    · exact rooted_visits (.inl rfl)
  | .fnDecl name parameters typeName ⟨_, body⟩ line => by
    apply Rooted.cons rfl
    apply Rooted.append
      (rooted_visits (.inr fun _ hMem => (Outline.isPart_of_mem_ofHead hMem).1))
    split
    · next inside _ => exact Stmt.walkAll_rooted (depth + 1) inside body
    · exact rooted_visits (.inl rfl)

theorem Stmt.walkAll_rooted (depth : Nat) (point : Point) :
    ∀ stmts : List Stmt, Rooted (Stmt.walkAll depth point stmts)
  | [] => trivial
  | s :: stmts =>
    (Stmt.walk_rooted depth point s).append (Stmt.walkAll_rooted depth (point.after s) stmts)

end

/-- The walk through a statement is found in every walk through a program that comes to it. -/
theorem Stmt.walk_isPrefix {block : Block} {before after : List Visit} {visit : Visit} {s : Stmt}
    {point : Point} (hWalk : block.walk = before ++ visit :: after) (hNode : visit.node = .stmt s)
    (hPoint : visit.point? = some point) : s.walk visit.depth point <+: visit :: after := by
  have hRooted : Rooted (before ++ visit :: after) :=
    hWalk ▸ Stmt.walkAll_rooted 0 .start block.body
  clear hWalk
  induction before with
  | nil => exact hRooted.1 s point hNode hPoint
  | cons first before ih => exact ih hRooted.2

end Jingle.Typing

import Jingle.Proofs.Typing.Bearer
import Jingle.Proofs.Typing.Invariant

/-!
# The functions that are visible

A function is visible behind the head of its first declaration outside of functions, also in its own
body, and whatever becomes of the body. Later declarations of its name are refused and change
nothing.

* `firstDeclared?` finds the first declaration of a function among the visits of a walk.
* `Block.get?_functions` says that what is known of a function is told by its first declaration.
* `Block.functions_visible` says what follows for calls and for declarations.
-/

namespace Jingle.Typing

open Syntax

/-- The function that is declared at a visit outside of functions. -/
def Visit.signature? (visit : Visit) : Option Signature :=
  match visit.node, visit.point? with
  | .stmt (.fnDecl name parameters typeName _ line), some point =>
    if point.state.scopes.inFunction then none
    else some
      ⟨name, line, parameters.map (Ty.ofName? ·.typeName.name), Ty.ofName? typeName.name⟩
  | _, _ => none

/-- The first declaration of a function among the given visits. -/
def firstDeclared? (visits : List Visit) (name : String) : Option Signature :=
  (visits.filterMap Visit.signature?).find? (·.name = name)

theorem Visit.signature?_of_not_isFn {visit : Visit} (h : ¬ visit.node.IsFn) :
    visit.signature? = none := by
  obtain ⟨depth, node, point?⟩ := visit
  cases node with
  | stmt s =>
    cases s with
    | fnDecl => exact absurd trivial h
    | varDecl | constDecl | echo | branch | loop | assign | ret => rfl
  | expr | location | typeName | parameter => rfl

theorem Visit.signature?_of_idle {visit : Visit} (h : visit.Idle) : visit.signature? = none := by
  obtain ⟨depth, node, point?⟩ := visit
  rcases h with rfl | hPart
  · cases node with
    | stmt s => cases s <;> rfl
    | expr | location | typeName | parameter => rfl
  · exact signature?_of_not_isFn hPart.not_isFn

theorem firstDeclared?_append (first second : List Visit) (name : String) :
    firstDeclared? (first ++ second) name =
      (firstDeclared? first name).or (firstDeclared? second name) := by
  rw [firstDeclared?, List.filterMap_append, List.find?_append]
  rfl

/-- Visits that declare no function. -/
theorem firstDeclared?_append_of_none {first second : List Visit}
    (h : ∀ visit ∈ second, visit.signature? = none) (name : String) :
    firstDeclared? (first ++ second) name = firstDeclared? first name := by
  have hNone : firstDeclared? second name = none := by
    rw [firstDeclared?, List.filterMap_eq_nil_iff.mpr h]
    rfl
  rw [firstDeclared?_append, hNone, Option.or_none]

theorem functions_invariant : Invariant fun before point =>
    ∀ name, point.state.functions.get? name = firstDeclared? before name where
  idle := by
    intro before point visit hIdle h name
    rw [h, firstDeclared?_append_of_none]
    exact List.forall_mem_singleton.mpr (Visit.signature?_of_idle hIdle)
  step := by
    intro before point s depth hFn h name
    have hNone : Visit.signature? ⟨depth, .stmt s, point⟩ = none := by
      by_cases hIs : (Node.stmt s).IsFn
      · cases s with
        | fnDecl => exact if_pos (hFn hIs)
        | varDecl | constDecl | echo | branch | loop | assign | ret => rfl
      · exact Visit.signature?_of_not_isFn hIs
    rw [point.step_functions, h,
      firstDeclared?_append_of_none (List.forall_mem_singleton.mpr hNone)]
  enter := by
    intro before point inside name parameters typeName line depth body hEnter h callee
    have hOutside := Point.not_inFunction_of_inside? hEnter
    rw [Point.inside?_eq, if_neg hOutside] at hEnter
    obtain rfl := Option.some.inj hEnter
    have hHead : ∀ visit ∈ Outline.visits point (.ofHead (depth + 1) parameters typeName),
        visit.signature? = none := by
      intro visit hMem
      obtain ⟨entry, hEntry, rfl⟩ := List.mem_map.mp hMem
      exact Visit.signature?_of_idle (.inr (Outline.isPart_of_mem_ofHead hEntry).1)
    have hOwn : firstDeclared?
        [⟨depth, .stmt (.fnDecl name parameters typeName body line), point⟩] callee =
          if name = callee then some
            ⟨name, line, parameters.map (Ty.ofName? ·.typeName.name), Ty.ofName? typeName.name⟩
          else none := by
      simp only [firstDeclared?, Visit.signature?, if_neg hOutside, List.filterMap_cons,
        List.filterMap_nil, List.find?_cons, List.find?_nil]
      by_cases hName : name = callee <;> simp [hName]
    -- The function is declared at its own visit, before anything in its head or its body.
    rw [← List.singleton_append, ← List.append_assoc, firstDeclared?_append_of_none hHead,
      firstDeclared?_append, ← h callee, hOwn]
    dsimp only
    rw [Functions.get?_register]
    by_cases hName : name = callee
    · rw [if_pos hName, if_pos hName]
      cases point.state.functions.get? callee <;> rfl
    · rw [if_neg hName, if_neg hName, Option.or_none]
  leave := fun _ _ h => h

end Jingle.Typing

namespace Jingle.Syntax.Node

open Typing

/-- What is said of a call by what is known of its function. -/
theorem call_cases (point : Point) (callee : String) (arguments : List Expr) (info : Info) :
    let call : Node := expr (.call callee arguments info)
    let types := (Expr.checkAll point.state arguments).1.map Expr.ty
    (point.state.functions.get? callee = none ∧
        call.reports point = [⟨info.line, .functionNotDeclared callee⟩]) ∨
      ∃ signature, point.state.functions.get? callee = some signature ∧
        ((∃ expected received, signature.Refuses types expected received ∧
            call.reports point = [⟨info.line,
              .argumentMismatch callee (Ty.tuple expected) (Ty.tuple received)⟩] ∧
            (call.annotate point).ty = none) ∨
          ((∀ expected received, ¬ signature.Refuses types expected received) ∧
            call.reports point = [] ∧ (call.annotate point).ty = signature.returns)) := by
  intro call types
  have hReports : call.reports point =
      (Verdict.ofCall point.state.functions callee types).diagnostics info.line := rfl
  have hTy : (call.annotate point).ty =
      (Verdict.ofCall point.state.functions callee types).ty := rfl
  rw [hReports, hTy]
  rcases Verdict.ofCall_cases point.state.functions callee types with
    ⟨hNone, hVerdict⟩ | ⟨signature, expected, received, hSome, hRefuses, hVerdict⟩ |
      ⟨signature, hSome, hAccepts, hVerdict⟩
  · rw [hVerdict]
    exact .inl ⟨hNone, rfl⟩
  · rw [hVerdict]
    exact .inr ⟨signature, hSome, .inl ⟨expected, received, hRefuses, rfl, rfl⟩⟩
  · rw [hVerdict]
    exact .inr ⟨signature, hSome, .inr ⟨hAccepts, rfl, rfl⟩⟩

/-- A declaration is reported for an earlier one exactly if one is known. -/
theorem functionAlreadyDefined_mem_reports {point : Point} {name : String}
    {parameters : List Parameter} {a : TypeName} {body : Block} {line cited : UInt32} :
    ⟨line, .functionAlreadyDefined name cited⟩ ∈
        (stmt (.fnDecl name parameters a body line)).reports point ↔
      ∃ signature, point.state.functions.get? name = some signature ∧ signature.line = cited := by
  constructor
  · intro hMem
    rcases mem_fnReports.mp hMem with ⟨signature, hKnown, h⟩ | ⟨_, h⟩ | ⟨_, h⟩ |
      ⟨inside, returns, violation, _, _, hLast, h⟩
    · cases h
      exact ⟨signature, hKnown, rfl⟩
    · cases h
    · cases h
    · cases h
      rcases Verdict.ofReturns_eq_some hLast with h | h <;> cases h
  · rintro ⟨signature, hKnown, rfl⟩
    exact mem_fnReports.mpr (.inl ⟨signature, hKnown, rfl⟩)

end Jingle.Syntax.Node

namespace Jingle.Syntax.Block

open Typing

variable {block : Block} {before after : List Visit} {visit : Visit} {point : Point}

/-- What is known of a function at a statement or an expression is told by its first declaration
before it. -/
theorem get?_functions (hWalk : block.walk = before ++ visit :: after)
    (hPoint : visit.point? = some point)
    (hNode : ¬ visit.node.IsPart ∨ ∃ e, visit.node = .expr e) (name : String) :
    point.state.functions.get? name = firstDeclared? before name := by
  have hHeld := functions_invariant.block (fun _ => rfl) hWalk hPoint
  rcases hNode with hStmt | ⟨e, hExpr⟩
  · exact hHeld.stmt hStmt name
  · obtain ⟨front, own, rfl, hFront, hOwn⟩ := hHeld.expr e hExpr
    rw [hFront name, firstDeclared?_append_of_none]
    exact fun visit hMem => Visit.signature?_of_not_isFn (hOwn visit hMem)

/-- A call is reported for an unknown function exactly if no declaration of the function comes
before it, where the declaration around it counts. Otherwise the first of them decides about the
call: either its parameters are known to differ from the arguments, or the call has the type that it
returns. A declaration is reported exactly if another comes before it, with the line of the
first. -/
theorem functions_visible (hWalk : block.walk = before ++ visit :: after)
    (hPoint : visit.point? = some point) :
    block.walk.map Visit.entry = block.outline ∧
    block.walk.map Visit.annotated = block.check.1.outline ∧
    block.check.2.Perm (block.walk.flatMap Visit.reports) ∧
    (∀ callee arguments info, visit.node = .expr (.call callee arguments info) →
      (⟨info.line, .functionNotDeclared callee⟩ ∈ visit.reports ↔
        firstDeclared? before callee = none) ∧
      ∀ signature, firstDeclared? before callee = some signature →
        let types := (Expr.checkAll point.state arguments).1.map Expr.ty
        (∃ expected received, signature.Refuses types expected received ∧
          visit.reports = [⟨info.line,
            .argumentMismatch callee (Ty.tuple expected) (Ty.tuple received)⟩] ∧
          visit.annotated.2.ty = none) ∨
        ((∀ expected received, ¬ signature.Refuses types expected received) ∧
          visit.reports = [] ∧ visit.annotated.2.ty = signature.returns)) ∧
    (∀ name parameters typeName body line,
      visit.node = .stmt (.fnDecl name parameters typeName body line) →
      ∀ cited, ⟨line, .functionAlreadyDefined name cited⟩ ∈ visit.reports ↔
        ∃ signature, firstDeclared? before name = some signature ∧ signature.line = cited) := by
  refine ⟨block.walk_entries, block.walk_annotated, block.walk_reports, ?_, ?_⟩
  · intro callee arguments info hNode
    rw [← get?_functions hWalk hPoint (.inr ⟨_, hNode⟩) callee]
    obtain ⟨depth, node, point?⟩ := visit
    subst hNode hPoint
    rcases Node.call_cases point callee arguments info with
      ⟨hNone, hReports⟩ | ⟨signature, hSome, hAnswer⟩
    · refine ⟨iff_of_true ?_ hNone, ?_⟩
      · exact List.mem_of_mem_head? (congrArg List.head? hReports)
      · intro signature hSome
        cases hNone.symm.trans hSome
    · constructor
      · rw [hSome]
        apply iff_of_false ?_ (Option.some_ne_none signature)
        intro hMem
        change _ ∈ (Node.expr (.call callee arguments info)).reports point at hMem
        rcases hAnswer with ⟨_, _, _, hReports, _⟩ | ⟨_, hReports, _⟩
        · rw [hReports] at hMem
          cases List.mem_singleton.mp hMem
        · rw [hReports] at hMem
          cases hMem
      · intro other hOther
        obtain rfl := Option.some.inj (hSome.symm.trans hOther)
        exact hAnswer
  · intro name parameters typeName body line hNode cited
    rw [← get?_functions hWalk hPoint (.inl (hNode ▸ id)) name]
    obtain ⟨depth, node, point?⟩ := visit
    subst hNode hPoint
    exact Node.functionAlreadyDefined_mem_reports

theorem functions_visible_redefined :
    let value : Expr := .literal (.integer 1) ⟨3, none⟩
    let call : Expr := .call "f" [value] ⟨3, none⟩
    let parameter : Parameter := ⟨⟨1, none⟩, "x", ⟨⟨1, none⟩, "int"⟩⟩
    let first : Stmt := .fnDecl "f" [parameter] ⟨⟨1, none⟩, "int"⟩ ⟨1, []⟩ 1
    let second : Stmt := .fnDecl "f" [] ⟨⟨2, none⟩, "bool"⟩ ⟨2, [.ret call ⟨2, none⟩]⟩ 2
    let block : Block := ⟨1, [first, second, .echo call 3]⟩
    let visit : Visit := ⟨1, .expr call, Point.start.afterAll [first, second]⟩
    (∃ before after, block.walk = before ++ visit :: after) ∧
      visit.reports = [] ∧ visit.annotated.2.ty = some .int := by
  intro value call parameter first second block visit
  have hWalk : block.walk = block.walk.take 10 ++ visit :: block.walk.drop 11 := rfl
  have hFirst : firstDeclared? (block.walk.take 10) "f" =
      some ⟨"f", 1, [some .int], some .int⟩ := by decide
  obtain ⟨-, -, -, hCall, -⟩ := functions_visible hWalk rfl
  rcases (hCall "f" [value] ⟨3, none⟩ rfl).2 _ hFirst with
    ⟨expected, received, ⟨hExpected, hReceived, hNe⟩, -⟩ | ⟨-, hAnswer⟩
  · have hSame : expected.map some = received.map some := hExpected.symm.trans hReceived
    exact absurd ((List.map_inj_right fun _ _ => Option.some.inj).mp hSame) hNe
  · exact ⟨⟨_, _, hWalk⟩, hAnswer⟩

end Jingle.Syntax.Block

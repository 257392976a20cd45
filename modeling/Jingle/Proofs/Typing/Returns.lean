import Jingle.Proofs.Typing.Bearer
import Jingle.Proofs.Typing.Growth
import Jingle.Proofs.Typing.Invariant
import Jingle.Proofs.Typing.Rules

/-!
# The returns of a function

What is reported about the returns of a function is decided after its body, from what the return
statements on the way have left behind. These are the return statements that checking comes to: it
leaves out the blocks of a condition that is not a truth value, and the bodies of functions in
functions.

* `Point.afterAll_returns` says that the returns after a body are those of the return statements
  that were come to.
* `Stmt.aggregates_returns` compares what is reported at the return statements with what is reported
  about the function.
* `Block.missingReturn_iff` says when a function is reported to have no return statement.
-/

namespace Jingle.Typing

open Syntax

/-! ## Return statements on a walk -/

/-- The type of the value of a return statement that is come to. It may be unknown. -/
def Visit.returned? (visit : Visit) : Option (Option Ty) :=
  match visit.node, visit.point? with
  | .stmt (.ret value _), some point => some (value.check point.state).1.ty
  | _, _ => none

/-- The types of the values that are returned on the way through a body. -/
def Point.returned (inside : Point) (depth : Nat) (body : List Stmt) : List (Option Ty) :=
  (Stmt.walkAll depth inside body).filterMap Visit.returned?

theorem Visit.returned?_of_idle {visit : Visit} (h : visit.Idle) : visit.returned? = none := by
  obtain ⟨depth, node, point?⟩ := visit
  rcases h with rfl | hPart
  · cases node with
    | stmt s => cases s <;> rfl
    | expr | location | typeName | parameter => rfl
  · cases node with
    | stmt s => exact absurd hPart id
    | expr | location | typeName | parameter => rfl

/-- Inside of a function, the returns so far are those of the return statements so far. -/
def Returning (returns : Returns) (before : List Visit) (point : Point) : Prop :=
  point.state.scopes.inFunction ∧
    point.returns = some ((before.filterMap Visit.returned?).foldl Returns.add returns)

theorem returning_invariant (returns : Returns) : Invariant (Returning returns) where
  idle := by
    rintro before point visit hIdle ⟨hInside, hReturns⟩
    refine ⟨hInside, ?_⟩
    rw [hReturns, List.filterMap_append, List.filterMap_cons_none (Visit.returned?_of_idle hIdle),
      List.filterMap_nil, List.append_nil]
  step := by
    rintro before point s depth - ⟨hInside, hReturns⟩
    refine ⟨(point.step_inFunction s).trans hInside, ?_⟩
    rw [List.filterMap_append, List.foldl_append]
    cases s with
    | ret value info =>
      change point.returns.map (·.add (value.check point.state).1.ty) = _
      rw [hReturns]
      rfl
    | varDecl | constDecl | echo | branch | loop | assign | fnDecl => exact hReturns
  enter := by
    -- Inside of a function no other function is entered, so that the returns never change hands.
    rintro before point inside name parameters typeName line depth body hEnter ⟨hInside, -⟩
    exact absurd hInside (Point.not_inFunction_of_inside? hEnter)
  leave := by
    rintro front before point inside last name parameters typeName line hEnter ⟨hInside, -⟩
    exact absurd hInside (Point.not_inFunction_of_inside? hEnter)

/-- The returns after a body are those of the return statements that were come to. -/
theorem Point.afterAll_returns {inside : Point} {returns : Returns}
    (hInside : inside.state.scopes.inFunction) (hReturns : inside.returns = some returns)
    (depth : Nat) (body : List Stmt) :
    HeldAlong (Returning returns) [] (Stmt.walkAll depth inside body) ∧
      (inside.afterAll body).returns =
        some ((inside.returned depth body).foldl Returns.add returns) := by
  have hStart : Returning returns [] inside := ⟨hInside, hReturns⟩
  obtain ⟨hHeld, -, hAfter⟩ := (returning_invariant returns).walkAll depth body hStart
  exact ⟨hHeld, hAfter⟩

/-! ## The verdict on the returns -/

/-- A type that is known and is not the known type that was declared. -/
def mismatched : Option Ty → Option Ty → Bool
  | some expected, some found => found ≠ expected
  | _, _ => false

theorem Returns.mem_observed_add {returns : Returns} {found : Option Ty} {ty : Ty} :
    ty ∈ (returns.add found).observed ↔ ty ∈ returns.observed ∨ found = some ty := by
  have hAll : ty ∈ Ty.all := by cases ty <;> decide
  cases found with
  | none => simp [add, tally]
  | some other => simp [add, tally, observe, hAll, or_comm, @eq_comm _ ty]

/-- Return statements one after another, each counted and each with its type observed. -/
theorem Returns.foldl_add (returned : List (Option Ty)) (returns : Returns) :
    let after := returned.foldl Returns.add returns
    after.name = returns.name ∧ after.expected = returns.expected ∧
      after.count = returns.count + returned.length ∧
      ∀ ty, ty ∈ after.observed ↔ ty ∈ returns.observed ∨ some ty ∈ returned := by
  induction returned generalizing returns with
  | nil => simp
  | cons found returned ih =>
    obtain ⟨hName, hExpected, hCount, hObserved⟩ := ih (returns.add found)
    have hGrows := returns.grows_add found
    have hTally : (returns.add found).count = returns.count + 1 := by cases found <;> rfl
    refine ⟨hName.trans hGrows.name, hExpected.trans hGrows.expected, ?_, ?_⟩
    · rw [List.foldl_cons, hCount, hTally, List.length_cons]
      omega
    · intro ty
      rw [List.foldl_cons, hObserved, mem_observed_add, List.mem_cons, or_assoc, eq_comm]

/-- The verdict on a function, told by what was returned. -/
theorem Verdict.ofReturns_foldl_add (name : String) (expected : Option Ty)
    (returned : List (Option Ty)) :
    ofReturns (returned.foldl Returns.add { name, expected }) =
      if returned = [] then some (.missingReturn name)
      else if returned.any (mismatched expected) then some (.tooManyReturnTypes name)
      else none := by
  obtain ⟨hName, hExpected, hCount, hObserved⟩ := Returns.foldl_add returned { name, expected }
  have hEmpty : returned.length = 0 ↔ returned = [] := List.length_eq_zero_iff
  simp only [ofReturns, hName, hExpected, hCount, Nat.zero_add, hEmpty]
  cases expected with
  | none =>
    have hNone : returned.any (mismatched none) = false := by simp [mismatched]
    simp [hNone]
  | some expected =>
    have hAny : (returned.foldl Returns.add { name, expected := some expected }).observed.any
        (· ≠ expected) = returned.any (mismatched (some expected)) := by
      rw [Bool.eq_iff_iff, List.any_eq_true, List.any_eq_true]
      constructor
      · rintro ⟨ty, hMem, hNe⟩
        exact ⟨some ty, ((hObserved ty).mp hMem).resolve_left List.not_mem_nil, hNe⟩
      · rintro ⟨found, hMem, hNe⟩
        cases found with
        | none => cases hNe
        | some ty => exact ⟨ty, (hObserved ty).mpr (.inr hMem), hNe⟩
    dsimp only
    rw [hAny]

/-- The verdict on the returns of a function after its body. -/
theorem Point.verdict_afterAll {point inside : Point} {name : String} {parameters : List Parameter}
    {typeName : TypeName} {line : UInt32}
    (hEnter : point.inside? name parameters typeName line = some inside) (depth : Nat)
    (body : List Stmt) :
    (inside.afterAll body).returns.bind Verdict.ofReturns =
      if inside.returned depth body = [] then some (.missingReturn name)
      else if (inside.returned depth body).any (mismatched (Ty.ofName? typeName.name)) then
        some (.tooManyReturnTypes name)
      else none := by
  obtain ⟨hInside, hReturns⟩ := inside?_eq_some hEnter
  rw [(afterAll_returns hInside hReturns depth body).2, Option.bind_some,
    Verdict.ofReturns_foldl_add]

/-! ## Counting diagnostics -/

/-- The number of diagnostics that name the given rule. -/
def countOf (rule : String) (diagnostics : List Diagnostic) : Nat :=
  diagnostics.countP (·.violation.name = rule)

theorem countOf_append (rule : String) (first second : List Diagnostic) :
    countOf rule (first ++ second) = countOf rule first + countOf rule second :=
  List.countP_append

theorem countOf_eq_zero_iff {rule : String} {diagnostics : List Diagnostic} :
    countOf rule diagnostics = 0 ↔ ∀ d ∈ diagnostics, d.violation.name ≠ rule := by
  simp [countOf]

/-- A return statement is reported exactly for a type that is known and not the declared one. -/
theorem Verdict.countOf_ofReturn (returns : Returns) (found : Option Ty) (line : UInt32) :
    countOf "ReturnTypeMismatch" ((ofReturn (some returns) found).diagnostics line) =
      [found].countP (mismatched returns.expected) := by
  cases found with
  | none => cases returns.expected <;> rfl
  | some ty =>
    simp only [ofReturn]
    cases returns.expected with
    | none => rfl
    | some expected =>
      by_cases hEq : expected = ty
      · simp [hEq, mismatched, typed, diagnostics, countOf]
      · simp [hEq, mismatched, broken, diagnostics, countOf, Violation.name, Ne.symm hEq]

/-- Counting over the visits of a walk, one visit at a time. -/
theorem countOf_visits {rule : String} {p : Option Ty → Bool} {visits : List Visit}
    (h : ∀ visit ∈ visits, countOf rule visit.reports = visit.returned?.toList.countP p) :
    countOf rule (visits.flatMap Visit.reports) =
      (visits.filterMap Visit.returned?).countP p := by
  induction visits with
  | nil => rfl
  | cons visit visits ih =>
    obtain ⟨hFirst, hOthers⟩ := List.forall_mem_cons.mp h
    rw [List.flatMap_cons, countOf_append, hFirst, ih hOthers]
    cases hReturned : visit.returned? with
    | none =>
      rw [List.filterMap_cons_none hReturned, Option.toList_none, List.countP_nil, Nat.zero_add]
    | some ty =>
      rw [List.filterMap_cons_some hReturned, Option.toList_some, List.countP_cons,
        List.countP_cons, List.countP_nil]
      omega

/-- What is counted at no visit is not counted over the walk. -/
theorem countOf_visits_eq_zero {rule : String} {visits : List Visit}
    (h : ∀ visit ∈ visits, countOf rule visit.reports = 0) :
    countOf rule (visits.flatMap Visit.reports) = 0 := by
  rw [countOf_eq_zero_iff]
  intro d hMem
  obtain ⟨visit, hVisit, hMem⟩ := List.mem_flatMap.mp hMem
  exact countOf_eq_zero_iff.mp (h visit hVisit) d hMem

end Jingle.Typing

namespace Jingle.Syntax.Node

open Typing

variable {point : Point}

/-- Nothing but a return statement is reported for the type that it returns. -/
theorem isRet_of_returnTypeMismatch {node : Node} {d : Diagnostic} (hMem : d ∈ node.reports point)
    (hRule : d.violation.name = "ReturnTypeMismatch") :
    ∃ value info, node = stmt (.ret value info) := by
  have hBears := (bears_of_mem_reports hMem).2
  cases hViolation : d.violation <;> simp [hViolation, Violation.name] at hRule
  rw [hViolation] at hBears
  exact hBears

/-- Nothing but a function is reported for its returns as a whole. -/
theorem isFn_of_returns {node : Node} {d : Diagnostic} (hMem : d ∈ node.reports point)
    (hRule : d.violation.name = "MissingReturn" ∨ d.violation.name = "TooManyReturnTypes") :
    ∃ name parameters a body line, node = stmt (.fnDecl name parameters a body line) := by
  have hBears := (bears_of_mem_reports hMem).2
  cases hViolation : d.violation <;> simp [hViolation, Violation.name] at hRule <;>
    (rw [hViolation] at hBears; exact hBears)

/-- A function is reported for its returns at most once and after its body, and a function in a
function is not. -/
theorem countOf_fnReports {rule : String} (point : Point) (name : String)
    (parameters : List Parameter) (a : TypeName) (body : Block) (line : UInt32)
    (hRule : rule = "MissingReturn" ∨ rule = "TooManyReturnTypes") :
    countOf rule ((stmt (.fnDecl name parameters a body line)).reports point) =
      ((point.inside? name parameters a line).bind fun inside =>
        (inside.afterAll body.body).returns.bind Verdict.ofReturns).toList.countP
          (·.name = rule) := by
  have hEarlier : countOf rule ((point.state.functions.get? name).map fun signature =>
      (⟨line, .functionAlreadyDefined name signature.line⟩ : Diagnostic)).toList = 0 := by
    rw [countOf_eq_zero_iff]
    intro d hMem
    obtain ⟨signature, -, rfl⟩ := Option.map_eq_some_iff.mp (Option.mem_toList.mp hMem)
    rcases hRule with rfl | rfl <;> simp [Violation.name]
  have hRepeated : countOf rule (if hasDuplicates (parameters.map (·.name)) then
      [(⟨line, .duplicateParameters⟩ : Diagnostic)] else []) = 0 := by
    split
    · rcases hRule with rfl | rfl <;> rfl
    · rfl
  simp only [reports, fnReports, countOf_append, hEarlier, hRepeated, Nat.zero_add]
  rw [countOf, List.countP_map]
  cases point.inside? name parameters a line with
  | none => rcases hRule with rfl | rfl <;> rfl
  | some inside => rfl

end Jingle.Syntax.Node

namespace Jingle.Typing

open Syntax

/-- What is reported on the way through a body: at a return statement its own mismatch, and nowhere
anything about the returns as a whole. -/
theorem Visit.countOf_reports {visit : Visit} {returns : Returns}
    (hHeld : ∀ point, visit.point? = some point →
      ∃ front, Held (Returning returns) front visit point) :
    countOf "ReturnTypeMismatch" visit.reports =
        visit.returned?.toList.countP (mismatched returns.expected) ∧
      countOf "MissingReturn" visit.reports = 0 ∧
      countOf "TooManyReturnTypes" visit.reports = 0 := by
  obtain ⟨depth, node, point?⟩ := visit
  cases point? with
  | none =>
    rw [Visit.returned?_of_idle (.inl rfl)]
    exact ⟨rfl, rfl, rfl⟩
  | some point =>
    obtain ⟨front, hHeld⟩ := hHeld point rfl
    change countOf _ (node.reports point) = _ ∧ countOf _ (node.reports point) = 0 ∧
      countOf _ (node.reports point) = 0
    have hWhole {rule : String} (hRule : rule = "MissingReturn" ∨ rule = "TooManyReturnTypes") :
        countOf rule (node.reports point) = 0 := by
      by_cases hFn : ∃ name parameters a body line,
          node = .stmt (.fnDecl name parameters a body line)
      · obtain ⟨name, parameters, a, body, line, rfl⟩ := hFn
        have hCount := Node.countOf_fnReports point name parameters a body line hRule
        rwa [Point.inside?_eq_none_iff.mpr (hHeld.stmt id).1] at hCount
      · rw [countOf_eq_zero_iff]
        rintro d hMem rfl
        exact hFn (Node.isFn_of_returns hMem hRule)
    refine ⟨?_, hWhole (.inl rfl), hWhole (.inr rfl)⟩
    by_cases hRet : ∃ value info, node = .stmt (.ret value info)
    · obtain ⟨value, info, rfl⟩ := hRet
      obtain ⟨-, hReturns⟩ := hHeld.stmt id
      have hExpected := (Returns.foldl_add (front.filterMap Visit.returned?) returns).2.1
      change countOf _ ((Verdict.ofReturn point.returns _).diagnostics _) =
        [(value.check point.state).1.ty].countP _
      rw [hReturns, ← hExpected]
      exact Verdict.countOf_ofReturn _ _ _
    · have hNone : Visit.returned? ⟨depth, node, some point⟩ = none := by
        unfold Visit.returned?
        split
        · next value info _ hNode _ => exact absurd ⟨value, info, hNode⟩ hRet
        · rfl
      rw [hNone, Option.toList_none, List.countP_nil, countOf_eq_zero_iff]
      intro d hMem hRule
      exact hRet (Node.isRet_of_returnTypeMismatch hMem hRule)

end Jingle.Typing

/-! ## Functions -/

namespace Jingle.Syntax.Stmt

open Typing

variable {point inside : Point} {name : String} {parameters : List Parameter}
  {typeName : TypeName} {line : UInt32}

/-- The walk through a function outside of functions. -/
theorem walk_fnDecl (hEnter : point.inside? name parameters typeName line = some inside)
    (body : Block) (depth : Nat) :
    (fnDecl name parameters typeName body line).walk depth point =
      ⟨depth, .stmt (.fnDecl name parameters typeName body line), point⟩ ::
        (Outline.visits point (.ofHead (depth + 1) parameters typeName) ++
          walkAll (depth + 1) inside body.body) := by
  obtain ⟨bodyLine, body⟩ := body
  simp only [walk, hEnter]

/-- What is reported about a function, in its head and in its body. -/
theorem countOf_fnDecl (hEnter : point.inside? name parameters typeName line = some inside)
    (body : Block) {rule : String}
    (hRule : rule ∈ ["ReturnTypeMismatch", "MissingReturn", "TooManyReturnTypes"]) :
    countOf rule ((fnDecl name parameters typeName body line).check point.state
        point.returns).diagnostics =
      countOf rule ((Node.stmt (.fnDecl name parameters typeName body line)).reports point) +
        countOf rule (checkAll inside.state inside.returns body.body).diagnostics := by
  -- The order of the diagnostics is not that of the walk, but their number is the same.
  have hWhole := (check_reports 0 point (fnDecl name parameters typeName body line)).countP_eq
    (·.violation.name = rule)
  have hInner := (checkAll_reports 1 inside body.body).countP_eq (·.violation.name = rule)
  have hHead : countOf rule
      ((Outline.visits point (.ofHead 1 parameters typeName)).flatMap Visit.reports) = 0 := by
    apply countOf_visits_eq_zero
    intro visit hVisit
    obtain ⟨entry, hEntry, rfl⟩ := List.mem_map.mp hVisit
    rw [countOf_eq_zero_iff]
    rintro d hMem rfl
    have hPart := (Outline.isPart_of_mem_ofHead hEntry).1
    simp only [List.mem_cons, List.not_mem_nil, or_false] at hRule
    rcases hRule with hRule | hRule
    · obtain ⟨value, info, hNode⟩ := Node.isRet_of_returnTypeMismatch hMem hRule
      exact hPart.ne_stmt _ hNode
    · obtain ⟨name, parameters, a, body, line, hNode⟩ := Node.isFn_of_returns hMem hRule
      exact hPart.ne_stmt _ hNode
  rw [walk_fnDecl hEnter, List.flatMap_cons, List.flatMap_append] at hWhole
  change countOf rule _ = countOf rule _ at hWhole hInner
  rw [hWhole, hInner, countOf_append, countOf_append, hHead, Nat.zero_add]
  rfl

/-- On the way through a body, the mismatches are those of the values that are returned. -/
theorem countOf_body (hEnter : point.inside? name parameters typeName line = some inside)
    (body : List Stmt) :
    let inner := (checkAll inside.state inside.returns body).diagnostics
    countOf "ReturnTypeMismatch" inner =
        (inside.returned 1 body).countP (mismatched (Ty.ofName? typeName.name)) ∧
      countOf "MissingReturn" inner = 0 ∧ countOf "TooManyReturnTypes" inner = 0 := by
  obtain ⟨hInside, hReturns⟩ := Point.inside?_eq_some hEnter
  obtain ⟨hHeld, -⟩ := Point.afterAll_returns hInside hReturns 1 body
  have hVisit (visit : Visit) (hMem : visit ∈ walkAll 1 inside body) :=
    Visit.countOf_reports fun _ => hHeld.of_mem hMem
  have hInner (rule : String) :
      countOf rule (checkAll inside.state inside.returns body).diagnostics =
        countOf rule ((walkAll 1 inside body).flatMap Visit.reports) :=
    (checkAll_reports 1 inside body).countP_eq _
  dsimp only
  rw [hInner, hInner, hInner]
  exact ⟨countOf_visits fun visit hMem => (hVisit visit hMem).1,
    countOf_visits_eq_zero fun visit hMem => (hVisit visit hMem).2.1,
    countOf_visits_eq_zero fun visit hMem => (hVisit visit hMem).2.2⟩

/-- What is reported about a function and its returns, told by the values that are returned. -/
theorem countOf_returns (hEnter : point.inside? name parameters typeName line = some inside)
    (body : Block) :
    let whole := ((fnDecl name parameters typeName body line).check point.state
      point.returns).diagnostics
    let returned := inside.returned 1 body.body
    let mismatches := returned.countP (mismatched (Ty.ofName? typeName.name))
    countOf "ReturnTypeMismatch" whole = mismatches ∧
      countOf "MissingReturn" whole = (if returned = [] then 1 else 0) ∧
      countOf "TooManyReturnTypes" whole = (if 0 < mismatches then 1 else 0) := by
  obtain ⟨hMismatch, hMissing, hMany⟩ := countOf_body hEnter body.body
  have hOwn : countOf "ReturnTypeMismatch"
      ((Node.stmt (.fnDecl name parameters typeName body line)).reports point) = 0 := by
    rw [countOf_eq_zero_iff]
    intro d hMem hRule
    obtain ⟨value, info, hNode⟩ := Node.isRet_of_returnTypeMismatch hMem hRule
    cases hNode
  dsimp only
  rw [countOf_fnDecl hEnter body (by simp), countOf_fnDecl hEnter body (by simp),
    countOf_fnDecl hEnter body (by simp), hOwn, hMismatch, hMissing, hMany,
    Node.countOf_fnReports _ _ _ _ _ _ (.inl rfl), Node.countOf_fnReports _ _ _ _ _ _ (.inr rfl),
    hEnter, Option.bind_some, Point.verdict_afterAll hEnter 1]
  refine ⟨Nat.zero_add _, ?_⟩
  by_cases hEmpty : inside.returned 1 body.body = []
  · rw [hEmpty]
    exact ⟨rfl, rfl⟩
  · simp only [if_neg hEmpty, List.any_eq_true, List.countP_pos_iff]
    split <;> exact ⟨rfl, rfl⟩

/-- A function that is declared outside of functions is reported at most once for the types that it
returns, exactly if a return statement of its body was reported for its own type, and not also for a
missing return statement. These are the return statements on the way through the body whose value is
of a known type other than the declared one, so that there are none if the declaration names no
type. -/
theorem aggregates_returns {point : Point} (hOutside : ¬ point.state.scopes.inFunction)
    (name : String) (parameters : List Parameter) (typeName : TypeName) (body : Block)
    (line : UInt32) :
    ∃ inside, point.inside? name parameters typeName line = some inside ∧
      let whole := ((fnDecl name parameters typeName body line).check point.state
        point.returns).diagnostics
      let inner := (checkAll inside.state inside.returns body.body).diagnostics
      inner <:+: whole ∧
      countOf "TooManyReturnTypes" whole ≤ 1 ∧
      (0 < countOf "TooManyReturnTypes" whole ↔ 0 < countOf "ReturnTypeMismatch" inner) ∧
      (0 < countOf "ReturnTypeMismatch" inner → ⟨line, .tooManyReturnTypes name⟩ ∈ whole) ∧
      countOf "ReturnTypeMismatch" inner =
        (inside.returned 1 body.body).countP (mismatched (Ty.ofName? typeName.name)) ∧
      (countOf "MissingReturn" whole = 0 ∨ countOf "TooManyReturnTypes" whole = 0) ∧
      (Ty.ofName? typeName.name = none →
        countOf "TooManyReturnTypes" whole = 0 ∧ countOf "ReturnTypeMismatch" whole = 0) := by
  obtain ⟨inside, hEnter⟩ := Point.exists_inside? hOutside name parameters typeName line
  refine ⟨inside, hEnter, ?_⟩
  obtain ⟨hAll, hMissing, hMany⟩ := countOf_returns hEnter body
  obtain ⟨hMismatch, -⟩ := countOf_body hEnter body.body
  intro whole inner
  have hWhole : whole = (checkHead point.state name parameters typeName line).2.2 ++ inner ++
      ((inside.afterAll body.body).returns.bind Verdict.ofReturns).toList.map
        (Diagnostic.mk line) :=
    congrArg Outcome.diagnostics (check_fnDecl_of_some hEnter body)
  refine ⟨⟨_, _, hWhole.symm⟩, ?_, ?_, ?_, hMismatch, ?_, ?_⟩
  · rw [hMany]
    split <;> omega
  · rw [hMany, hMismatch]
    split <;> omega
  · intro hPos
    rw [hMismatch, List.countP_pos_iff] at hPos
    have hSome : inside.returned 1 body.body ≠ [] := by
      obtain ⟨ty, hMem, -⟩ := hPos
      exact List.ne_nil_of_mem hMem
    rw [hWhole, Point.verdict_afterAll hEnter 1, if_neg hSome, if_pos (List.any_eq_true.mpr hPos)]
    exact List.mem_append_right _ (List.mem_singleton_self _)
  · rw [hMissing, hMany]
    by_cases hEmpty : inside.returned 1 body.body = []
    · rw [hEmpty]
      exact .inr rfl
    · exact .inl (if_neg hEmpty)
  · intro hUnknown
    have hNone :
        (inside.returned 1 body.body).countP (mismatched (Ty.ofName? typeName.name)) = 0 := by
      simp [hUnknown, mismatched]
    rw [hMany, hAll, hNone]
    exact ⟨rfl, rfl⟩

theorem aggregates_returns_bool :
    let body : Block := ⟨1, [.ret (.literal (.bool true) ⟨1, none⟩) ⟨1, none⟩]⟩
    let s : Stmt := .fnDecl "f" [] ⟨⟨1, none⟩, "int"⟩ body 1
    ¬ Point.start.state.scopes.inFunction ∧
      0 < countOf "TooManyReturnTypes" (s.check .initial none).diagnostics := by
  intro body s
  have hOutside : ¬ Point.start.state.scopes.inFunction := by decide
  obtain ⟨inside, hEnter, -, -, hIff, -⟩ :=
    aggregates_returns hOutside "f" [] ⟨⟨1, none⟩, "int"⟩ body 1
  obtain rfl := Option.some.inj (hEnter.symm.trans rfl)
  exact ⟨hOutside, hIff.mpr (by decide)⟩

end Jingle.Syntax.Stmt

/-! ## Return statements that are left out -/

namespace Jingle.Typing

open Syntax

/-- The type of the condition of a branch or a loop that is come to. It may be unknown. -/
def Visit.condition? (visit : Visit) : Option (Option Ty) :=
  match visit.node, visit.point? with
  | .stmt (.branch condition ..), some point | .stmt (.loop condition ..), some point =>
    some (condition.check point.state).1.ty
  | _, _ => none

/-- The condition, if there is one, is a truth value. -/
def Visit.Decided (visit : Visit) : Prop :=
  ∀ ty ∈ visit.condition?, ty = some .bool

instance (visit : Visit) : Decidable visit.Decided :=
  inferInstanceAs (Decidable (∀ ty ∈ visit.condition?, ty = some .bool))

/-- The visits come to as many return statements as given. They may come to fewer where a condition
is not a truth value. -/
def Covers (visits : List Visit) (count : Nat) : Prop :=
  (visits.filterMap Visit.returned?).length ≤ count ∧
    ((∀ visit ∈ visits, visit.Decided) → (visits.filterMap Visit.returned?).length = count)

section Covers

variable {first second visits : List Visit} {visit : Visit} {m n : Nat}

theorem covers_singleton (visit : Visit) : Covers [visit] visit.returned?.toList.length := by
  have hLength : ([visit].filterMap Visit.returned?).length = visit.returned?.toList.length := by
    cases hReturned : visit.returned? with
    | none => rw [List.filterMap_cons_none hReturned]; rfl
    | some ty => rw [List.filterMap_cons_some hReturned]; rfl
  exact ⟨Nat.le_of_eq hLength, fun _ => hLength⟩

theorem Covers.append (hFirst : Covers first m) (hSecond : Covers second n) :
    Covers (first ++ second) (m + n) := by
  rw [Covers, List.filterMap_append, List.length_append]
  refine ⟨Nat.add_le_add hFirst.1 hSecond.1, ?_⟩
  intro hDecided
  obtain ⟨hDecided, hDecided'⟩ := List.forall_mem_append.mp hDecided
  rw [hFirst.2 hDecided, hSecond.2 hDecided']

theorem Covers.prepend (hFirst : Covers first 0) (hSecond : Covers second n) :
    Covers (first ++ second) n :=
  Nat.zero_add n ▸ hFirst.append hSecond

/-- Behind a condition that is not a truth value nothing is come to. -/
theorem Covers.refused {ty : Option Ty} (hCondition : visit.condition? = some ty)
    (hNe : ty ≠ some .bool) (h : Covers (visit :: visits) 0) : Covers (visit :: visits) n := by
  refine ⟨Nat.le_trans h.1 n.zero_le, ?_⟩
  intro hDecided
  exact absurd (hDecided visit List.mem_cons_self ty hCondition) hNe

theorem covers_visits {point? : Option Point} {outline : Outline}
    (h : point? = none ∨ ∀ entry ∈ outline, entry.2.IsPart) :
    Covers (Outline.visits point? outline) 0 := by
  have hNil : (Outline.visits point? outline).filterMap Visit.returned? = [] := by
    rw [List.filterMap_eq_nil_iff]
    intro visit hMem
    obtain ⟨entry, hEntry, rfl⟩ := List.mem_map.mp hMem
    exact Visit.returned?_of_idle (h.imp id fun hParts => hParts entry hEntry)
  rw [Covers, hNil]
  exact ⟨Nat.le_refl 0, fun _ => rfl⟩

theorem covers_expr (point? : Option Point) (depth : Nat) (e : Expr) :
    Covers (Outline.visits point? (e.outline depth)) 0 :=
  covers_visits (.inr fun _ => Expr.isPart_of_mem_outline)

end Covers

theorem Point.after_inFunction (point : Point) (s : Stmt) :
    (point.after s).state.scopes.inFunction = point.state.scopes.inFunction :=
  (Stmt.check_grows point.state point.returns s).inFunction_eq

theorem Point.afterAll_inFunction (point : Point) (stmts : List Stmt) :
    (point.afterAll stmts).state.scopes.inFunction = point.state.scopes.inFunction :=
  (Stmt.checkAll_grows point.state point.returns stmts).inFunction_eq

mutual

/-- In a function, the walk through a statement covers its return statements. -/
theorem covers_walk (depth : Nat) {point : Point} (hInside : point.state.scopes.inFunction) :
    ∀ s : Stmt, Covers (s.walk depth point) (returnCount s)
  | .varDecl _ typeName value _ =>
    (covers_singleton _).append (covers_visits
      (.inr fun _ => Outline.isPart_of_mem_cons (.typeName typeName) trivial value))
  | .constDecl _ value _ | .echo value _ | .ret value _ =>
    (covers_singleton _).append (covers_expr _ _ value)
  | .assign target value _ =>
    (covers_singleton _).append (covers_visits
      (.inr fun _ => Outline.isPart_of_mem_cons (.location target) trivial (some value)))
  | .branch condition ⟨thenLine, thenBody⟩ ⟨elseLine, elseBody⟩ line => by
    rw [Stmt.walk]
    have hOwn : Covers [⟨depth, .stmt (.branch condition ⟨thenLine, thenBody⟩ ⟨elseLine, elseBody⟩
      line), point⟩] 0 := covers_singleton _
    have hCondition := covers_expr point (depth + 1) condition
    by_cases hBool : (condition.check point.state).1.ty = some .bool
    · rw [if_pos hBool]
      have hThen := covers_walkAll (depth + 1) hInside thenBody
      have hElse := covers_walkAll (depth + 1)
        ((point.afterAll_inFunction thenBody).trans hInside) elseBody
      exact hOwn.prepend (hCondition.prepend (hThen.append hElse))
    · rw [if_neg hBool]
      exact .refused rfl hBool (hOwn.append (hCondition.append (covers_visits (.inl rfl))))
  | .loop condition ⟨bodyLine, body⟩ line => by
    rw [Stmt.walk]
    have hOwn : Covers [⟨depth, .stmt (.loop condition ⟨bodyLine, body⟩ line), point⟩] 0 :=
      covers_singleton _
    have hCondition := covers_expr point (depth + 1) condition
    by_cases hBool : (condition.check point.state).1.ty = some .bool
    · rw [if_pos hBool]
      have hBody := covers_walkAll (depth + 1) hInside body
      exact hOwn.prepend (hCondition.prepend hBody)
    · rw [if_neg hBool]
      exact .refused rfl hBool (hOwn.append (hCondition.append (covers_visits (.inl rfl))))
  | .fnDecl name parameters typeName ⟨bodyLine, body⟩ line => by
    rw [Stmt.walk, Point.inside?_eq_none_iff.mpr hInside]
    have hHead : Covers (Outline.visits point (.ofHead (depth + 1) parameters typeName)) 0 :=
      covers_visits (.inr fun _ hMem => (Outline.isPart_of_mem_ofHead hMem).1)
    exact (covers_singleton _).append (hHead.append (covers_visits (.inl rfl)))

theorem covers_walkAll (depth : Nat) {point : Point} (hInside : point.state.scopes.inFunction) :
    ∀ stmts : List Stmt, Covers (Stmt.walkAll depth point stmts) (returnCounts stmts)
  | [] => ⟨Nat.le_refl 0, fun _ => rfl⟩
  | s :: stmts =>
    (covers_walk depth hInside s).append
      (covers_walkAll depth ((point.after_inFunction s).trans hInside) stmts)

end

end Jingle.Typing

namespace Jingle.Syntax.Node

open Typing

/-- A function is reported to have no return statement if none is come to in its body. -/
theorem missingReturn_mem_reports {point inside : Point} {name : String}
    {parameters : List Parameter} {a : TypeName} {line : UInt32}
    (hEnter : point.inside? name parameters a line = some inside) (body : Block) (depth : Nat) :
    ⟨line, .missingReturn name⟩ ∈ (stmt (.fnDecl name parameters a body line)).reports point ↔
      inside.returned depth body.body = [] := by
  have hVerdict := Point.verdict_afterAll hEnter depth body.body
  constructor
  · intro hMem
    rcases mem_fnReports.mp hMem with ⟨_, _, h⟩ | ⟨_, h⟩ | ⟨_, h⟩ |
      ⟨inside', returns, violation, hEnter', hReturns, hLast, h⟩
    · cases h
    · cases h
    · cases h
    · cases h
      obtain rfl := Option.some.inj (hEnter.symm.trans hEnter')
      rw [hReturns, Option.bind_some, hLast] at hVerdict
      split at hVerdict
      · next hNil => exact hNil
      · split at hVerdict <;> cases hVerdict
  · intro hNil
    rw [if_pos hNil] at hVerdict
    obtain ⟨returns, hReturns, hLast⟩ := Option.bind_eq_some_iff.mp hVerdict
    exact mem_fnReports.mpr (.inr (.inr (.inr ⟨inside, returns, _, hEnter, hReturns, hLast, rfl⟩)))

end Jingle.Syntax.Node

namespace Jingle.Syntax.Block

open Typing

/-- A function is reported to have no return statement if none is come to on the way through its
body. So it is if there is none in the body, and only then as long as every condition in the body is
a truth value. But a return statement behind another condition does not count. -/
theorem missingReturn_iff {block : Block} {before after : List Visit} {visit : Visit}
    {point : Point} {name : String} {parameters : List Parameter} {typeName : TypeName}
    {body : Block} {line : UInt32} (hWalk : block.walk = before ++ visit :: after)
    (hPoint : visit.point? = some point)
    (hNode : visit.node = .stmt (.fnDecl name parameters typeName body line))
    (hOutside : ¬ point.state.scopes.inFunction) :
    block.walk.map Visit.entry = block.outline ∧
    block.check.2.Perm (block.walk.flatMap Visit.reports) ∧
    ∃ inside rest, point.inside? name parameters typeName line = some inside ∧
      let way := Stmt.walkAll (visit.depth + 1) inside body.body
      after = Outline.visits point (.ofHead (visit.depth + 1) parameters typeName) ++ way ++ rest ∧
      (⟨line, .missingReturn name⟩ ∈ visit.reports ↔ ∀ visit ∈ way, visit.returned? = none) ∧
      (returnCounts body.body = 0 → ⟨line, .missingReturn name⟩ ∈ visit.reports) ∧
      ((∀ visit ∈ way, visit.Decided) →
        (⟨line, .missingReturn name⟩ ∈ visit.reports ↔ returnCounts body.body = 0)) := by
  obtain ⟨depth, node, point?⟩ := visit
  subst hNode hPoint
  obtain ⟨inside, hEnter⟩ := Point.exists_inside? hOutside name parameters typeName line
  obtain ⟨rest, hRest⟩ := Stmt.walk_isPrefix hWalk rfl rfl
  rw [Stmt.walk_fnDecl hEnter] at hRest
  have hReported := Node.missingReturn_mem_reports hEnter body (depth + 1)
  obtain ⟨hLe, hEq⟩ := covers_walkAll (depth + 1) (Point.inside?_eq_some hEnter).1 body.body
  refine ⟨block.walk_entries, block.walk_reports, inside, rest, hEnter, ?_, ?_, ?_, ?_⟩
  · exact (List.cons.inj hRest).2.symm
  · rw [← List.filterMap_eq_nil_iff]
    exact hReported
  · intro hZero
    rw [hZero] at hLe
    exact hReported.mpr (List.length_eq_zero_iff.mp (Nat.le_zero.mp hLe))
  · intro hDecided
    rw [← hEq hDecided, List.length_eq_zero_iff]
    exact hReported

theorem missingReturn_iff_branch :
    let value : Expr := .literal (.bool true) ⟨2, none⟩
    let body : Block := ⟨1, [.branch value ⟨2, [.ret value ⟨3, none⟩]⟩ ⟨2, []⟩ 2]⟩
    let s : Stmt := .fnDecl "f" [] ⟨⟨1, none⟩, "int"⟩ body 1
    let visit : Visit := ⟨0, .stmt s, some .start⟩
    (∃ after, Block.walk ⟨1, [s]⟩ = [] ++ visit :: after) ∧
      ⟨1, .missingReturn "f"⟩ ∉ visit.reports := by
  intro value body s visit
  have hWalk : Block.walk ⟨1, [s]⟩ = [] ++ visit :: (Block.walk ⟨1, [s]⟩).tail := rfl
  have hOutside : ¬ Point.start.state.scopes.inFunction := by decide
  obtain ⟨-, -, inside, rest, hEnter, -, -, -, hIff⟩ := missingReturn_iff hWalk rfl rfl hOutside
  obtain rfl := Option.some.inj (hEnter.symm.trans rfl)
  refine ⟨⟨_, hWalk⟩, ?_⟩
  rw [hIff (by decide)]
  decide

/-- The only return statement of a function stands behind a condition that is not a truth value. -/
theorem missingReturn_of_skipped :
    let value : Expr := .literal (.integer 1) ⟨1, none⟩
    let body : Block := ⟨1, [.branch value ⟨1, [.ret value ⟨1, none⟩]⟩ ⟨1, []⟩ 1]⟩
    let block : Block := ⟨1, [.fnDecl "f" [] ⟨⟨1, none⟩, "int"⟩ body 1]⟩
    returnCounts body.body = 1 ∧ ⟨1, .missingReturn "f"⟩ ∈ block.check.2 := by
  decide

end Jingle.Syntax.Block

import Jingle.Proofs.Token.Pattern
import Jingle.Proofs.Typing.Bearer
import Jingle.Proofs.Typing.Erasure

/-!
# Lists of types as they are shown

A list of types is shown between parentheses, with a comma behind each type that is followed by
another one and behind a type that stands alone. The names of types have neither commas nor
parentheses, so that the types can be read back from the text. A call is refused only for types that
differ from those of the parameters, and so the two lists in its diagnostic look different.

* `Ty.tuple_inj` says that lists of types that look the same are equal.
* `Violation.ShowsTuples` says what a diagnostic about arguments shows.
* `Ty.tuple_tells_apart` says both, the latter of all programs.
-/

namespace Jingle.Syntax.Ty

open Token (takeWhile_append_of_head?)

/-! ## Reading back -/

/-- A character that follows the name of a type. -/
def isSeparator (c : Char) : Bool :=
  c = ',' || c = ')'

theorem not_isSeparator_of_mem_name (ty : Ty) :
    ∀ c ∈ ty.name.toList, (!isSeparator c) = true := by
  have hAll : ty.name.toList.all (!isSeparator ·) = true := by cases ty <;> decide
  exact List.all_eq_true.mp hAll

theorem name_ne_nil (ty : Ty) : ty.name.toList ≠ [] := by
  cases ty <;> decide

theorem name_inj {a b : Ty} : a.name = b.name ↔ a = b := by
  cases a <;> cases b <;> decide

/-- A name ends where the first separator stands. -/
theorem name_append_inj {a b : Ty} {rest rest' : List Char}
    (hRest : ∀ c ∈ rest.head?, isSeparator c = true)
    (hRest' : ∀ c ∈ rest'.head?, isSeparator c = true)
    (h : a.name.toList ++ rest = b.name.toList ++ rest') : a = b ∧ rest = rest' := by
  have hName {ty : Ty} {rest : List Char} (hRest : ∀ c ∈ rest.head?, isSeparator c = true) :
      (ty.name.toList ++ rest).takeWhile (!isSeparator ·) = ty.name.toList :=
    takeWhile_append_of_head? ty.not_isSeparator_of_mem_name fun c hc => by rw [hRest c hc]; rfl
  have hNames := @hName a rest hRest
  rw [h, hName hRest', String.toList_inj, name_inj] at hNames
  obtain rfl := hNames
  exact ⟨rfl, List.append_cancel_left h⟩

/-- What is shown of the types behind another one, with the parenthesis that closes the list. -/
def shownRest : List Ty → List Char
  | [] => [')']
  | ty :: types => ',' :: ' ' :: (ty.name.toList ++ shownRest types)

theorem isSeparator_shownRest (types : List Ty) :
    ∀ c ∈ (shownRest types).head?, isSeparator c = true := by
  cases types <;> rintro c ⟨⟩ <;> rfl

theorem shownRest_inj {a b : List Ty} (h : shownRest a = shownRest b) : a = b := by
  induction a generalizing b with
  | nil =>
    cases b with
    | nil => rfl
    | cons => cases (List.cons.inj h).1
  | cons ty types ih =>
    cases b with
    | nil => cases (List.cons.inj h).1
    | cons ty' types' =>
      have hText := (List.cons.inj (List.cons.inj h).2).2
      obtain ⟨rfl, hRest⟩ :=
        name_append_inj (isSeparator_shownRest types) (isSeparator_shownRest types') hText
      rw [ih hRest]

/-- What is shown behind the first type, which has a comma behind it if it stands alone. -/
def shownAfterFirst : List Ty → List Char
  | [] => [',', ')']
  | types => shownRest types

theorem isSeparator_shownAfterFirst (types : List Ty) :
    ∀ c ∈ (shownAfterFirst types).head?, isSeparator c = true := by
  cases types <;> rintro c ⟨⟩ <;> rfl

theorem shownAfterFirst_inj {a b : List Ty} (h : shownAfterFirst a = shownAfterFirst b) :
    a = b := by
  cases a with
  | nil =>
    cases b with
    | nil => rfl
    | cons => cases (List.cons.inj (List.cons.inj h).2).1
  | cons =>
    cases b with
    | nil => cases (List.cons.inj (List.cons.inj h).2).1
    | cons => exact shownRest_inj h

theorem intercalate_names (ty : Ty) (types : List Ty) :
    [',', ' '].intercalate ((ty :: types).map (·.name.toList)) ++ [')'] =
      ty.name.toList ++ shownRest types := by
  induction types generalizing ty with
  | nil => simp [shownRest]
  | cons next types ih =>
    have hNext := ih next
    rw [List.map_cons] at hNext
    rw [List.map_cons, List.map_cons, List.intercalate_cons_cons, List.append_assoc, hNext,
      List.append_assoc]
    rfl

theorem toList_tuple_nil : (tuple []).toList = ['(', ')'] :=
  rfl

theorem toList_tuple_cons (ty : Ty) (types : List Ty) :
    (tuple (ty :: types)).toList = '(' :: (ty.name.toList ++ shownAfterFirst types) := by
  cases types with
  | nil =>
    have hText : tuple [ty] = "(" ++ ty.name ++ ",)" := rfl
    rw [hText, String.toList_append, String.toList_append]
    exact List.append_assoc ['('] _ _
  | cons next types =>
    have hText : tuple (ty :: next :: types) =
        "(" ++ ", ".intercalate ((ty :: next :: types).map name) ++ ")" := rfl
    have hNames := intercalate_names ty (next :: types)
    rw [hText, String.toList_append, String.toList_append, String.toList_intercalate, List.map_map]
    exact (List.append_assoc ['('] _ _).trans (congrArg _ hNames)

theorem tuple_inj {a b : List Ty} : tuple a = tuple b ↔ a = b := by
  refine ⟨fun h => ?_, fun h => h ▸ rfl⟩
  have hText := congrArg String.toList h
  -- A list without types has a parenthesis where another one has the beginning of a name.
  have hNil {ty : Ty} {types : List Ty} : (tuple []).toList ≠ (tuple (ty :: types)).toList := by
    rw [toList_tuple_nil, toList_tuple_cons]
    intro hEq
    obtain ⟨c, name, hName⟩ := List.exists_cons_of_ne_nil ty.name_ne_nil
    rw [hName] at hEq
    have hFirst := (List.cons.inj (List.cons.inj hEq).2).1
    have hLetter := ty.not_isSeparator_of_mem_name c (hName ▸ List.mem_cons_self)
    rw [← hFirst] at hLetter
    cases hLetter
  cases a with
  | nil =>
    cases b with
    | nil => rfl
    | cons => exact absurd hText hNil
  | cons ty types =>
    cases b with
    | nil => exact absurd hText.symm hNil
    | cons ty' types' =>
      rw [toList_tuple_cons, toList_tuple_cons] at hText
      obtain ⟨rfl, hRest⟩ := name_append_inj (isSeparator_shownAfterFirst types)
        (isSeparator_shownAfterFirst types') (List.cons.inj hText).2
      rw [shownAfterFirst_inj hRest]

end Jingle.Syntax.Ty

/-! ## Refused calls -/

namespace Jingle

open Syntax Typing

/-- If the rule is about the arguments of a call, two lists of types are shown that look
different. -/
def Violation.ShowsTuples : Violation → Prop
  | .argumentMismatch _ expected received =>
    ∃ parameters arguments, expected = Ty.tuple parameters ∧ received = Ty.tuple arguments ∧
      expected ≠ received
  | _ => True

theorem Syntax.Node.showsTuples_of_mem_reports {node : Node} {point : Point} {d : Diagnostic}
    (h : d ∈ node.reports point) : d.violation.ShowsTuples := by
  have hBears := (Node.bears_of_mem_reports h).2
  cases hViolation : d.violation with
  | argumentMismatch name expected received =>
    rw [hViolation] at hBears
    obtain ⟨arguments, info, rfl⟩ := hBears
    have hVerdict := (Verdict.mem_diagnostics.mp h).2
    rw [hViolation] at hVerdict
    rcases Verdict.ofCall_cases point.state.functions name
      ((Expr.checkAll point.state arguments).1.map Expr.ty) with
      ⟨-, hCall⟩ | ⟨signature, parameters, received, -, hRefuses, hCall⟩ | ⟨signature, -, -, hCall⟩
    · rw [hCall] at hVerdict
      cases hVerdict
    · rw [hCall] at hVerdict
      cases hVerdict
      exact ⟨parameters, received, rfl, rfl, fun hSame => hRefuses.2.2 (Ty.tuple_inj.mp hSame)⟩
    · rw [hCall] at hVerdict
      cases hVerdict
  | _ => trivial

theorem Syntax.Block.showsTuples_of_mem_checkFrom {state : State} {block : Block} {d : Diagnostic}
    (h : d ∈ (block.checkFrom state).diagnostics) : d.violation.ShowsTuples := by
  have hWalk := (Stmt.checkAll_reports 0 ⟨state, none⟩ block.body).mem_iff.mp h
  obtain ⟨visit, -, hReport⟩ := List.mem_flatMap.mp hWalk
  obtain ⟨point, -, hReport⟩ := Visit.mem_reports.mp hReport
  exact Node.showsTuples_of_mem_reports hReport

/-- Lists of types look the same only if they are equal. So in every diagnostic about the arguments
of a call the two lists look different, also if the checker has seen other programs before. -/
theorem Syntax.Ty.tuple_tells_apart :
    (∀ a b : List Ty, Ty.tuple a = Ty.tuple b ↔ a = b) ∧
      (∀ block : Block, ∀ d ∈ block.check.2, d.violation.ShowsTuples) ∧
      ∀ (checker : Checker) (block : Block), ∃ reported : List Diagnostic,
        (checker.check block).2.reported = checker.reported ++ reported ∧
          ∀ d ∈ reported, d.violation.ShowsTuples := by
  refine ⟨fun a b => Ty.tuple_inj, ?_, ?_⟩
  · intro block d hMem
    exact Block.showsTuples_of_mem_checkFrom hMem
  · intro checker block
    refine ⟨(block.checkFrom checker.state).diagnostics, by rw [Checker.check_eq], ?_⟩
    intro d hMem
    exact Block.showsTuples_of_mem_checkFrom hMem

end Jingle

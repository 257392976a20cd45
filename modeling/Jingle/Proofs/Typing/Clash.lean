import Jingle.Proofs.Typing.Bearer
import Jingle.Proofs.Typing.Invariant

/-!
# Clashes of names

A declaration of a variable or a constant is carried out as a whole or not at all. Whether its name
is free is asked before anything else. If it is not, that is all that is reported, and the parts of
the declaration are not looked at. If it is, nothing in the declaration can take the name before
the declaration does.

* `Stmt.Installs` says that a declaration has been carried out.
* `Stmt.check_allOrNothing` says what becomes of a declaration.
-/

namespace Jingle

/-- The rule is that a declared name has to be free. -/
def Violation.IsClash : Violation → Prop
  | .nameAlreadyDefined .. | .reservedIdentifier _ => True
  | _ => False

namespace Syntax

open Typing

/-! ## Parts of declarations -/

theorem Node.exists_stmt_of_isClash {node : Node} {violation : Violation}
    (hBears : node.Bears violation) (hClash : violation.IsClash) : ∃ s, node = .stmt s := by
  cases violation with
  | nameAlreadyDefined | reservedIdentifier =>
    rcases hBears with ⟨_, _, _, hNode⟩ | ⟨_, _, hNode⟩ <;> exact ⟨_, hNode⟩
  | _ => exact absurd hClash id

/-- Expressions declare nothing. -/
theorem Expr.not_isClash_of_mem_check {state : State} {e : Expr} {d : Diagnostic}
    (h : d ∈ (e.check state).2) : ¬ d.violation.IsClash := by
  intro hClash
  obtain ⟨entry, hEntry, hReport⟩ :=
    List.mem_flatMap.mp ((e.check_reports 0 ⟨state, none⟩).mem_iff.mp h)
  obtain ⟨s, hNode⟩ :=
    Node.exists_stmt_of_isClash (Node.bears_of_mem_reports hReport).2 hClash
  exact (Expr.isPart_of_mem_outline hEntry).ne_stmt s hNode

theorem TypeName.not_isClash_of_mem_check {typeName : TypeName} {d : Diagnostic}
    (h : d ∈ typeName.check.2) : ¬ d.violation.IsClash := by
  intro hClash
  have hReport : d ∈ (Node.typeName typeName).reports .start := h
  obtain ⟨s, hNode⟩ :=
    Node.exists_stmt_of_isClash (Node.bears_of_mem_reports hReport).2 hClash
  cases hNode

namespace Stmt

/-! ## Declarations -/

/-- The name that a statement declares for the statements after it, and the sort of the name. -/
def declaration? : Stmt → Option (String × SymbolKind)
  | .varDecl name _ _ _ => some (name, .var)
  | .constDecl name _ _ => some (name, .const)
  | _ => none

/-- A declaration without the type that was found for it. Its parts stay as they are. -/
def untyped : Stmt → Stmt
  | .varDecl name typeName value info => .varDecl name typeName value { info with ty := none }
  | .constDecl name value info => .constDecl name value { info with ty := none }
  | s => s

/-- The innermost layer has one entry more, with the line of the declaration and the type that was
found for it. -/
def Installs (state : State) (s : Stmt) (name : String) (kind : SymbolKind)
    (outcome : Outcome Stmt) : Prop :=
  Scopes.Gains ⟨name, kind, outcome.tree.ty, s.line⟩ state.scopes outcome.state.scopes

/-- What becomes of a statement that declares a name of the given sort. -/
structure AllOrNothing (state : State) (returns : Option Returns) (s : Stmt) (name : String)
    (kind : SymbolKind) (outcome : Outcome Stmt) : Prop where
  /-- The name is installed, or the layers and the statement show no trace of it. -/
  layers : Installs state s name kind outcome ∨
    outcome.state.scopes = state.scopes ∧ outcome.tree.ty = none
  /-- Nothing but the layers changes. -/
  others : outcome.state.functions = state.functions ∧ outcome.returns = returns
  /-- A variable is installed if it has a type. -/
  var : kind = .var → (Installs state s name kind outcome ↔ outcome.tree.ty ≠ none)
  /-- A constant is installed if its name is free, whether it has a type or not. -/
  const : kind = .const →
    (Installs state s name kind outcome ↔ state.scopes.obstacle? name = none)
  /-- That a name is taken or reserved is the only diagnostic, and the parts are left alone. -/
  taken : ∀ violation, state.scopes.obstacle? name = some violation →
    violation.IsClash ∧ outcome.diagnostics = [⟨s.line, violation⟩] ∧ outcome.tree = s.untyped
  /-- A free name is still free when its turn comes, so that no clash is reported at all. -/
  free : state.scopes.obstacle? name = none →
    (∀ symbol, symbol.name = name → ∃ after, state.scopes.declare symbol = .ok after) ∧
      ∀ d ∈ outcome.diagnostics, ¬ d.violation.IsClash

section Outcomes

variable {state : State} {returns : Option Returns} {s : Stmt} {name : String} {kind : SymbolKind}
  {outcome : Outcome Stmt}

theorem not_installs (hScopes : outcome.state.scopes = state.scopes) :
    ¬ Installs state s name kind outcome :=
  fun hInstalls => hInstalls.ne hScopes

theorem allOrNothing_of_taken {violation : Violation}
    (hTaken : state.scopes.obstacle? name = some violation) (hTy : s.untyped.ty = none) :
    AllOrNothing state returns s name kind ⟨s.untyped, state, returns, [⟨s.line, violation⟩]⟩ where
  layers := .inr ⟨rfl, hTy⟩
  others := ⟨rfl, rfl⟩
  var _ := iff_of_false (not_installs rfl) (not_not_intro hTy)
  const _ := iff_of_false (not_installs rfl) (by rw [hTaken]; nofun)
  taken other hOther := by
    obtain rfl := Option.some.inj (hTaken.symm.trans hOther)
    refine ⟨?_, rfl, rfl⟩
    rcases Scopes.obstacle?_eq_some hTaken with rfl | ⟨existing, -, rfl⟩ <;> trivial
  free hFree := by cases hTaken.symm.trans hFree

/-- Where the name is free, only a variable without a type is not installed. -/
theorem allOrNothing_of_free (hFree : state.scopes.obstacle? name = none)
    (hOthers : outcome.state.functions = state.functions ∧ outcome.returns = returns)
    (hClash : ∀ d ∈ outcome.diagnostics, ¬ d.violation.IsClash)
    (hCases : (kind = .var ∧ outcome.tree.ty = none ∧ outcome.state.scopes = state.scopes) ∨
      (kind = .const ∨ outcome.tree.ty ≠ none) ∧ outcome.state.scopes =
        state.scopes.insert ⟨name, kind, outcome.tree.ty, s.line⟩) :
    AllOrNothing state returns s name kind outcome := by
  have hDeclare (symbol : Symbol) (hName : symbol.name = name) :
      ∃ after, state.scopes.declare symbol = .ok after := by
    refine ⟨state.scopes.insert symbol, ?_⟩
    rw [Scopes.declare_eq, hName, hFree]
  have hTaken (violation : Violation) : state.scopes.obstacle? name ≠ some violation := by
    rw [hFree]
    nofun
  rcases hCases with ⟨rfl, hTy, hScopes⟩ | ⟨hTyped, hScopes⟩
  · exact {
      layers := .inr ⟨hScopes, hTy⟩
      others := hOthers
      var := fun _ => iff_of_false (not_installs hScopes) (not_not_intro hTy)
      const := nofun
      taken := fun violation h => absurd h (hTaken violation)
      free := fun _ => ⟨hDeclare, hClash⟩ }
  · have hInstalls : Installs state s name kind outcome :=
      Scopes.gains_iff.mpr ⟨(Scopes.obstacle?_eq_none_iff.mp hFree).2, hScopes⟩
    exact {
      layers := .inl hInstalls
      others := hOthers
      var := by
        rintro rfl
        exact iff_of_true hInstalls (hTyped.resolve_left nofun)
      const := fun _ => iff_of_true hInstalls hFree
      taken := fun violation h => absurd h (hTaken violation)
      free := fun _ => ⟨hDeclare, hClash⟩ }

end Outcomes

section Free

variable {state : State} (returns : Option Returns) {name : String}
  (hFree : state.scopes.obstacle? name = none)

include hFree

theorem varDecl_allOrNothing (typeName : TypeName) (value : Option Expr) (info : Info) :
    AllOrNothing state returns (.varDecl name typeName value info) name .var
      ((Stmt.varDecl name typeName value info).check state returns) := by
  rw [check, checkVar_of_free typeName value info hFree]
  dsimp only
  refine allOrNothing_of_free hFree ⟨?_, rfl⟩ ?_ ?_
  · split <;> rfl
  · intro d hMem
    rcases List.mem_append.mp hMem with hMem | hMem
    · rcases List.mem_append.mp hMem with hMem | hMem
      · exact TypeName.not_isClash_of_mem_check hMem
      · cases value with
        | none => cases hMem
        | some value => exact Expr.not_isClash_of_mem_check hMem
    · obtain ⟨-, hViolation⟩ := Verdict.mem_diagnostics.mp hMem
      obtain ⟨_, _, hMismatch⟩ := Verdict.ofDeclaration_violation_eq_some hViolation
      rw [hMismatch]
      exact id
  · generalize (Verdict.ofDeclaration name (Ty.ofName? typeName.name)
      ((Expr.checkOption state value).1.map Expr.ty)).ty = ty
    cases ty with
    | none => exact .inl ⟨rfl, rfl, rfl⟩
    | some ty => exact .inr ⟨.inr (Option.some_ne_none ty), rfl⟩

theorem constDecl_allOrNothing (value : Expr) (info : Info) :
    AllOrNothing state returns (.constDecl name value info) name .const
      ((Stmt.constDecl name value info).check state returns) := by
  rw [check, checkConst_of_free value info hFree]
  refine allOrNothing_of_free hFree ⟨rfl, rfl⟩ ?_ (.inr ⟨.inl rfl, rfl⟩)
  exact fun d => Expr.not_isClash_of_mem_check

end Free

/-- A declaration declares its name with its line, sort and type, or it changes no layer and has no
type. Whether the name is free is decided before the parts of the declaration are looked at. -/
theorem check_allOrNothing (state : State) (returns : Option Returns) {s : Stmt} {name : String}
    {kind : SymbolKind} (h : s.declaration? = some (name, kind)) :
    AllOrNothing state returns s name kind (s.check state returns) := by
  cases hObstacle : state.scopes.obstacle? name with
  | some violation =>
    cases s with
    | varDecl _ typeName value info =>
      cases h
      rw [check, checkVar_of_taken typeName value info hObstacle]
      exact allOrNothing_of_taken hObstacle rfl
    | constDecl _ value info =>
      cases h
      rw [check, checkConst_of_taken value info hObstacle]
      exact allOrNothing_of_taken hObstacle rfl
    | _ => cases h
  | none =>
    cases s with
    | varDecl _ typeName value info =>
      cases h
      exact varDecl_allOrNothing returns hObstacle typeName value info
    | constDecl _ value info =>
      cases h
      exact constDecl_allOrNothing returns hObstacle value info
    | _ => cases h

/-- In a function with an integer parameter `n`, the constant `c` of `const c = n + true;` has no
type and is known all the same. -/
theorem check_allOrNothing_untyped :
    let state : State := ⟨⟨.empty, some (.ofSymbols [⟨"n", .param, some .int, 1⟩])⟩, .empty⟩
    let sum : Expr := .binary .add (.symbol ⟨⟨2, none⟩, "n"⟩ ⟨2, none⟩)
      (.literal (.bool true) ⟨2, none⟩) ⟨2, none⟩
    let s : Stmt := .constDecl "c" sum ⟨2, none⟩
    s.declaration? = some ("c", .const) ∧
      Scopes.Gains ⟨"c", .const, none, 2⟩ state.scopes (s.check state none).state.scopes := by
  intro state sum s
  have hDeclaration : s.declaration? = some ("c", .const) := rfl
  have hFree : state.scopes.obstacle? "c" = none := by decide
  exact ⟨hDeclaration, ((check_allOrNothing state none hDeclaration).const rfl).mpr hFree⟩

end Stmt

end Syntax

end Jingle

import Jingle.Typing.Statement

/-!
# Laws of scopes

A scope answers with its latest symbol of a name, and a scope of given symbols with the first of
them. A declaration against which nothing stands always succeeds: it puts the symbol in front of the
innermost layer.

* `Scope.Keeps` compares scopes that differ by what was added.
* `Scopes.declare_eq` gives the outcome of a declaration by its obstacle alone.
* `Scopes.Gains` says that the layers have one entry more, and `Scopes.declare_eq_ok_iff` that this
  is what a declaration does.
-/

namespace Jingle.Typing

open Syntax (Ty)

namespace Scope

@[simp] theorem get?_empty (name : String) : empty.get? name = none := rfl

theorem get?_insert (scope : Scope) (symbol : Symbol) (name : String) :
    (scope.insert symbol).get? name =
      if symbol.name = name then some symbol else scope.get? name := by
  simp only [get?, insert, List.find?_cons]
  by_cases h : symbol.name = name <;> simp [h]

/-- Filling a scope keeps the names that it has and otherwise finds the first new symbol. -/
theorem get?_foldl_insert (symbols : List Symbol) (scope : Scope) (name : String) :
    (symbols.foldl (fun scope symbol =>
      if (scope.get? symbol.name).isSome then scope else scope.insert symbol) scope).get? name =
      (scope.get? name).or (symbols.find? (·.name = name)) := by
  induction symbols generalizing scope with
  | nil => simp
  | cons symbol symbols ih =>
    rw [List.foldl_cons, ih, List.find?_cons]
    by_cases hTaken : (scope.get? symbol.name).isSome
    · rw [if_pos hTaken]
      by_cases hName : symbol.name = name
      · subst hName
        obtain ⟨found, hFound⟩ := Option.isSome_iff_exists.mp hTaken
        simp [hFound]
      · simp [hName]
    · rw [if_neg hTaken, get?_insert]
      by_cases hName : symbol.name = name
      · subst hName
        have hNone : scope.get? symbol.name = none := by simpa using hTaken
        simp [hNone]
      · simp [hName]

theorem get?_ofSymbols (symbols : List Symbol) (name : String) :
    (ofSymbols symbols).get? name = symbols.find? (·.name = name) := by
  rw [ofSymbols, get?_foldl_insert, get?_empty, Option.none_or]

/-- Every name of a scope keeps its symbol. -/
def Keeps (before after : Scope) : Prop :=
  ∀ name symbol, before.get? name = some symbol → after.get? name = some symbol

theorem Keeps.refl (scope : Scope) : scope.Keeps scope :=
  fun _ _ h => h

theorem Keeps.trans {before between after : Scope} (h : before.Keeps between)
    (h' : between.Keeps after) : before.Keeps after :=
  fun name symbol hFound => h' name symbol (h name symbol hFound)

theorem keeps_insert {scope : Scope} {symbol : Symbol}
    (hFree : scope.get? symbol.name = none) : scope.Keeps (scope.insert symbol) := by
  intro name found hFound
  have hName : symbol.name ≠ name := by
    rintro rfl
    cases hFree.symm.trans hFound
  rw [get?_insert, if_neg hName, hFound]

end Scope

namespace Scopes

/-- The layers with a symbol in front of the innermost one. -/
def insert (scopes : Scopes) (symbol : Symbol) : Scopes :=
  match scopes.function? with
  | some scope => { scopes with function? := some (scope.insert symbol) }
  | none => { scopes with globals := scopes.globals.insert symbol }

/-- A name is refused because it is reserved or because it is taken. -/
theorem obstacle?_eq_some {scopes : Scopes} {name : String} {violation : Violation}
    (h : scopes.obstacle? name = some violation) :
    violation = .reservedIdentifier name ∨
      ∃ existing, scopes.resolve? name = some existing ∧
        violation = .nameAlreadyDefined name existing.line := by
  unfold obstacle? at h
  split at h
  · exact .inl (Option.some.inj h).symm
  · obtain ⟨existing, hFound, rfl⟩ := Option.map_eq_some_iff.mp h
    exact .inr ⟨existing, hFound, rfl⟩

theorem obstacle?_eq_none_iff {scopes : Scopes} {name : String} :
    scopes.obstacle? name = none ↔ Ty.ofName? name = none ∧ scopes.resolve? name = none := by
  unfold obstacle?
  cases hName : Ty.ofName? name <;> simp

/-- A name that is not visible is in no layer. -/
theorem resolve?_eq_none_iff {scopes : Scopes} {name : String} :
    scopes.resolve? name = none ↔
      (∀ scope, scopes.function? = some scope → scope.get? name = none) ∧
        scopes.globals.get? name = none := by
  unfold resolve?
  rw [Option.or_eq_none_iff, Option.bind_eq_none_iff]

/-- The outcome of a declaration depends on its obstacle alone: the checks of the single layers
never find anything more. -/
theorem declare_eq (scopes : Scopes) (symbol : Symbol) :
    scopes.declare symbol =
      match scopes.obstacle? symbol.name with
      | some violation => .error violation
      | none => .ok (scopes.insert symbol) := by
  unfold declare
  cases hObstacle : scopes.obstacle? symbol.name with
  | some violation => rfl
  | none =>
    obtain ⟨hLocal, hGlobal⟩ := resolve?_eq_none_iff.mp (obstacle?_eq_none_iff.mp hObstacle).2
    cases hFunction : scopes.function? with
    | some scope =>
      simp only [insert, hFunction, Scope.declare, hLocal scope hFunction, Except.map]
    | none =>
      simp only [insert, hFunction, Scope.declare, hGlobal, Except.map]

/-! What the innermost layer gains, and that the other layer and all other names stay as they
were. -/

section Insert

variable (scopes : Scopes) (symbol : Symbol) (name : String)

theorem inFunction_insert : (scopes.insert symbol).inFunction = scopes.inFunction := by
  obtain ⟨globals, function?⟩ := scopes
  cases function? <;> rfl

theorem globals_insert : (scopes.insert symbol).globals.get? name =
    if scopes.inFunction = false ∧ symbol.name = name then some symbol
    else scopes.globals.get? name := by
  obtain ⟨globals, function?⟩ := scopes
  cases function? with
  | none => simp [insert, inFunction, Scope.get?_insert]
  | some scope => simp [insert, inFunction]

theorem function?_insert : (scopes.insert symbol).function?.bind (·.get? name) =
    if scopes.inFunction = true ∧ symbol.name = name then some symbol
    else scopes.function?.bind (·.get? name) := by
  obtain ⟨globals, function?⟩ := scopes
  cases function? with
  | none => simp [insert, inFunction]
  | some scope => simp [insert, inFunction, Scope.get?_insert]

theorem resolve?_insert : (scopes.insert symbol).resolve? symbol.name = some symbol := by
  obtain ⟨globals, function?⟩ := scopes
  cases function? with
  | none => simp [resolve?, insert, Scope.get?_insert]
  | some scope => simp [resolve?, insert, Scope.get?_insert]

end Insert

/-- The innermost layer has one entry more, for a name that was in no layer. The other layer is the
same. -/
inductive Gains (symbol : Symbol) : Scopes → Scopes → Prop where
  | inside {globals scope : Scope} : scope.get? symbol.name = none →
      globals.get? symbol.name = none →
      Gains symbol ⟨globals, some scope⟩ ⟨globals, some (scope.insert symbol)⟩
  | outside {globals : Scope} : globals.get? symbol.name = none →
      Gains symbol ⟨globals, none⟩ ⟨globals.insert symbol, none⟩

theorem gains_iff {scopes after : Scopes} {symbol : Symbol} :
    Gains symbol scopes after ↔
      scopes.resolve? symbol.name = none ∧ after = scopes.insert symbol := by
  constructor
  · intro h
    cases h with
    | inside hLocal hGlobal => exact ⟨by simp [resolve?, hLocal, hGlobal], rfl⟩
    | outside hGlobal => exact ⟨by simp [resolve?, hGlobal], rfl⟩
  · rintro ⟨hFree, rfl⟩
    obtain ⟨hLocal, hGlobal⟩ := resolve?_eq_none_iff.mp hFree
    obtain ⟨globals, function?⟩ := scopes
    cases function? with
    | none => exact .outside hGlobal
    | some scope => exact .inside (hLocal scope rfl) hGlobal

/-- The entry was not there before. -/
theorem Gains.ne {scopes after : Scopes} {symbol : Symbol} (h : Gains symbol scopes after) :
    after ≠ scopes := by
  rintro rfl
  obtain ⟨hFree, hSame⟩ := gains_iff.mp h
  have hFound := resolve?_insert after symbol
  rw [← hSame, hFree] at hFound
  cases hFound

theorem declare_eq_ok_iff {scopes after : Scopes} {symbol : Symbol} :
    scopes.declare symbol = .ok after ↔
      Ty.ofName? symbol.name = none ∧ Gains symbol scopes after := by
  rw [declare_eq, gains_iff, ← and_assoc, ← obstacle?_eq_none_iff]
  cases scopes.obstacle? symbol.name with
  | some violation => simp
  | none => simp [eq_comm]

end Scopes

theorem State.declare_eq (state : State) (symbol : Symbol) :
    state.declare symbol =
      match state.scopes.obstacle? symbol.name with
      | some violation => (state, some violation)
      | none => ({ state with scopes := state.scopes.insert symbol }, none) := by
  unfold State.declare
  rw [Scopes.declare_eq]
  cases state.scopes.obstacle? symbol.name <;> rfl

theorem Functions.get?_insert (functions : Functions) (signature : Signature) (name : String) :
    (functions.insert signature).get? name =
      if signature.name = name then some signature else functions.get? name := by
  simp only [get?, insert, List.find?_cons]
  by_cases hName : signature.name = name
  · simp [hName]
  · simp only [hName, decide_false, if_false, List.find?_filter]
    congr 1
    funext other
    by_cases hOther : other.name = name
    · simp [hOther, Ne.symm hName]
    · simp [hOther]

end Jingle.Typing

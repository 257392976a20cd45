import Jingle.Proofs.Typing.Scope
import Mathlib.Data.List.Induction

/-!
# Operations on layers

Names are declared, and functions are entered and left, one operation after another. Any of them may
be refused. The names that a function is entered with are its seeds: they are put into its layer
without a look at the global names, so that only a seed can hide a global name.

* `Scopes.Moves` says all that one operation can do.
* `Scopes.Within ops before seeds` says that operations end inside of a function, which was entered
  with `seeds` after the operations `before`.
* `Scopes.run_layered` says what holds after any operations.
-/

namespace Jingle.Typing

open Syntax (Ty)

namespace Scopes

/-! ## Operations -/

/-- What is done to layers of names. -/
inductive Operation where
  /-- A name is declared in the innermost layer. -/
  | declare (symbol : Symbol)
  /-- A function is entered with the names that its layer has at first. -/
  | enter (name : String) (seeds : List Symbol)
  /-- The function is left. -/
  | leave
  deriving DecidableEq, Repr

/-- Whether an operation is carried out. Otherwise it is refused. -/
def accepts (scopes : Scopes) : Operation → Bool
  | .declare symbol => (scopes.declare symbol).isOk
  | .enter name seeds => (scopes.enter name (.ofSymbols seeds)).isOk
  | .leave => scopes.inFunction

/-- The layers after an operation that may be refused. -/
def step (scopes : Scopes) : Operation → Scopes
  | .declare symbol => (scopes.declare symbol).toOption.getD scopes
  | .enter name seeds => (scopes.enter name (.ofSymbols seeds)).toOption.getD scopes
  | .leave => scopes.leave

/-- The layers after operations one after another. -/
def runFrom (scopes : Scopes) (ops : List Operation) : Scopes :=
  ops.foldl step scopes

/-- The layers after operations from the beginning of a program. -/
def run (ops : List Operation) : Scopes :=
  empty.runFrom ops

theorem run_append (first second : List Operation) :
    run (first ++ second) = (run first).runFrom second := by
  rw [run, runFrom, List.foldl_append]
  rfl

theorem run_concat (ops : List Operation) (op : Operation) :
    run (ops ++ [op]) = (run ops).step op :=
  run_append ops [op]

/-- All that an operation can do: nothing, or what it is for. -/
inductive Moves (scopes : Scopes) : Operation → Scopes → Prop where
  | refused {op : Operation} : scopes.accepts op = false → scopes.Moves op scopes
  | declared {symbol : Symbol} {after : Scopes} : Ty.ofName? symbol.name = none →
      Gains symbol scopes after → scopes.Moves (.declare symbol) after
  | entered {name : String} {seeds : List Symbol} : scopes.function? = none →
      scopes.Moves (.enter name seeds) ⟨scopes.globals, some (.ofSymbols seeds)⟩
  | left : scopes.inFunction = true → scopes.Moves .leave ⟨scopes.globals, none⟩

theorem step_of_refused {scopes : Scopes} {op : Operation} (h : scopes.accepts op = false) :
    scopes.step op = scopes := by
  cases op with
  | declare symbol =>
    cases hDeclare : scopes.declare symbol with
    | ok after =>
      rw [accepts, hDeclare] at h
      cases h
    | error violation =>
      rw [step, hDeclare]
      rfl
  | enter name seeds =>
    cases hEnter : scopes.enter name (.ofSymbols seeds) with
    | ok after =>
      rw [accepts, hEnter] at h
      cases h
    | error violation =>
      rw [step, hEnter]
      rfl
  | leave =>
    obtain ⟨globals, function?⟩ := scopes
    cases function? with
    | none => rfl
    | some scope => cases h

theorem accepts_declare_iff {scopes : Scopes} {symbol : Symbol} :
    scopes.accepts (.declare symbol) = true ↔
      Ty.ofName? symbol.name = none ∧ scopes.resolve? symbol.name = none := by
  rw [accepts, declare_eq, ← obstacle?_eq_none_iff]
  cases scopes.obstacle? symbol.name with
  | some violation => exact iff_of_false Bool.false_ne_true nofun
  | none => exact iff_of_true rfl rfl

theorem accepts_enter_iff {scopes : Scopes} {name : String} {seeds : List Symbol} :
    scopes.accepts (.enter name seeds) = true ↔ scopes.function? = none := by
  obtain ⟨globals, function?⟩ := scopes
  cases function? with
  | none => exact iff_of_true rfl rfl
  | some scope => exact iff_of_false Bool.false_ne_true nofun

theorem step_moves (scopes : Scopes) (op : Operation) : scopes.Moves op (scopes.step op) := by
  by_cases hAccepts : scopes.accepts op = true
  · cases op with
    | declare symbol =>
      cases hDeclare : scopes.declare symbol with
      | ok after =>
        obtain ⟨hType, hGains⟩ := declare_eq_ok_iff.mp hDeclare
        rw [step, hDeclare]
        exact .declared hType hGains
      | error violation =>
        rw [accepts, hDeclare] at hAccepts
        cases hAccepts
    | enter name seeds =>
      have hOutside := accepts_enter_iff.mp hAccepts
      obtain ⟨globals, function?⟩ := scopes
      obtain rfl : function? = none := hOutside
      exact .entered rfl
    | leave => exact .left hAccepts
  · have hRefused := Bool.eq_false_iff.mpr hAccepts
    rw [step_of_refused hRefused]
    exact .refused hRefused

/-! ## Global names -/

section Globals

variable {scopes after : Scopes} {op : Operation}

theorem Moves.globals_keeps (h : scopes.Moves op after) : scopes.globals.Keeps after.globals := by
  cases h with
  | refused | entered | left => exact .refl _
  | declared hType hGains =>
    cases hGains with
    | inside => exact .refl _
    | outside hGlobal => exact Scope.keeps_insert hGlobal

/-- The name of a type never becomes a global name. -/
theorem Moves.globals_eq_none {name : String} (h : scopes.Moves op after)
    (hName : (Ty.ofName? name).isSome) (hNone : scopes.globals.get? name = none) :
    after.globals.get? name = none := by
  cases h with
  | refused | entered | left => exact hNone
  | declared hType hGains =>
    cases hGains with
    | inside => exact hNone
    | outside =>
      rw [Scope.get?_insert, if_neg]
      · exact hNone
      · rintro rfl
        rw [hType] at hName
        cases hName

end Globals

theorem runFrom_globals_keeps (scopes : Scopes) (ops : List Operation) :
    scopes.globals.Keeps (scopes.runFrom ops).globals := by
  induction ops generalizing scopes with
  | nil => exact .refl _
  | cons op ops ih => exact (scopes.step_moves op).globals_keeps.trans (ih (scopes.step op))

theorem runFrom_globals_eq_none {name : String} (hName : (Ty.ofName? name).isSome)
    {scopes : Scopes} (h : scopes.globals.get? name = none) (ops : List Operation) :
    (scopes.runFrom ops).globals.get? name = none := by
  induction ops generalizing scopes with
  | nil => exact h
  | cons op ops ih => exact ih ((scopes.step_moves op).globals_eq_none hName h)

/-! ## The layer of a function -/

/-- A layer with the given seeds before the given global names. It has the first seed of each name,
and every other name in it is neither the name of a type nor a global name. -/
structure Seeded (globals : Scope) (seeds : List Symbol) (scope : Scope) : Prop where
  seed : ∀ {name : String} {symbol : Symbol}, seeds.find? (·.name = name) = some symbol →
    scope.get? name = some symbol
  other : ∀ {name : String}, scope.get? name ≠ none →
    (∃ symbol ∈ seeds, symbol.name = name) ∨
      Ty.ofName? name = none ∧ globals.get? name = none

theorem seeded_ofSymbols (globals : Scope) (seeds : List Symbol) :
    Seeded globals seeds (.ofSymbols seeds) where
  seed h := by rw [Scope.get?_ofSymbols, h]
  other {name} h := by
    rw [Scope.get?_ofSymbols] at h
    obtain ⟨symbol, hSymbol⟩ := Option.ne_none_iff_exists'.mp h
    exact .inl ⟨symbol, List.mem_of_find?_eq_some hSymbol, by simpa using List.find?_some hSymbol⟩

theorem Seeded.insert {globals scope : Scope} {seeds : List Symbol} {symbol : Symbol}
    (h : Seeded globals seeds scope) (hType : Ty.ofName? symbol.name = none)
    (hLocal : scope.get? symbol.name = none) (hGlobal : globals.get? symbol.name = none) :
    Seeded globals seeds (scope.insert symbol) where
  seed hSeed := Scope.keeps_insert hLocal _ _ (h.seed hSeed)
  other {name} hName := by
    rw [Scope.get?_insert] at hName
    by_cases hSame : symbol.name = name
    · subst hSame
      exact .inr ⟨hType, hGlobal⟩
    · rw [if_neg hSame] at hName
      exact h.other hName

/-- As long as a function is not left, its layer only gains names and the global names stay. -/
theorem runFrom_inside {globals scope : Scope} {seeds : List Symbol} {ops : List Operation}
    (hLeave : .leave ∉ ops) (h : Seeded globals seeds scope) :
    ∃ scope', runFrom ⟨globals, some scope⟩ ops = ⟨globals, some scope'⟩ ∧
      Seeded globals seeds scope' ∧ scope.Keeps scope' := by
  induction ops generalizing scope with
  | nil => exact ⟨scope, rfl, h, .refl _⟩
  | cons op ops ih =>
    rw [List.mem_cons, not_or] at hLeave
    have hMoves := step_moves ⟨globals, some scope⟩ op
    rw [runFrom, List.foldl_cons]
    generalize step ⟨globals, some scope⟩ op = after at hMoves ⊢
    cases hMoves with
    | refused => exact ih hLeave.2 h
    | entered hOutside => cases hOutside
    | left => exact absurd rfl hLeave.1
    | declared hType hGains =>
      cases hGains with
      | inside hLocal hGlobal =>
        obtain ⟨scope', hRun, hSeeded, hKeeps⟩ := ih hLeave.2 (h.insert hType hLocal hGlobal)
        exact ⟨scope', hRun, hSeeded, (Scope.keeps_insert hLocal).trans hKeeps⟩

/-- The operations end inside of a function. It was entered with the seeds after the operations
`before` and has not been left. -/
def Within (ops before : List Operation) (seeds : List Symbol) : Prop :=
  ∃ name inner, ops = before ++ .enter name seeds :: inner ∧
    (run before).accepts (.enter name seeds) = true ∧ .leave ∉ inner

theorem Within.run_eq {ops before : List Operation} {seeds : List Symbol}
    (h : Within ops before seeds) :
    (run before).function? = none ∧ ∃ scope, run ops = ⟨(run before).globals, some scope⟩ ∧
      Seeded (run before).globals seeds scope := by
  obtain ⟨name, inner, rfl, hAccepts, hLeave⟩ := h
  have hOutside := accepts_enter_iff.mp hAccepts
  rw [run_append, runFrom, List.foldl_cons]
  generalize run before = scopes at hOutside ⊢
  obtain ⟨globals, function?⟩ := scopes
  obtain rfl : function? = none := hOutside
  obtain ⟨scope, hRun, hSeeded, -⟩ := runFrom_inside hLeave (seeded_ofSymbols globals seeds)
  exact ⟨rfl, scope, hRun, hSeeded⟩

/-- Inside of a function, the last operation that was not refused and entered one is the one that
entered it. -/
theorem exists_within {ops : List Operation} (h : (run ops).inFunction = true) :
    ∃ before seeds, Within ops before seeds := by
  induction ops using List.reverseRecOn with
  | nil => cases h
  | append_singleton ops op ih =>
    -- An operation that neither enters nor leaves a function goes on inside of it.
    have hInner (hOps : (run ops).inFunction = true) (hOp : op ≠ .leave) :
        ∃ before seeds, Within (ops ++ [op]) before seeds := by
      obtain ⟨before, seeds, name, inner, rfl, hAccepts, hLeave⟩ := ih hOps
      refine ⟨before, seeds, name, inner ++ [op], by simp, hAccepts, ?_⟩
      simpa [hLeave] using Ne.symm hOp
    rw [run_concat] at h
    have hMoves := (run ops).step_moves op
    generalize (run ops).step op = after at h hMoves
    cases hMoves with
    | refused hRefused =>
      refine hInner h ?_
      rintro rfl
      cases h.symm.trans hRefused
    | declared hType hGains =>
      refine hInner ?_ (by simp)
      generalize run ops = scopes at hGains ⊢
      cases hGains with
      | inside => rfl
      | outside => cases h
    | @entered name seeds hOutside =>
      exact ⟨ops, seeds, name, [], rfl, accepts_enter_iff.mpr hOutside, List.not_mem_nil⟩
    | left => cases h

section Within

variable {ops before : List Operation} {seeds : List Symbol} {scope : Scope} {name : String}

/-- A name in the layer of a function is that of a seed, or it was free when it was declared. -/
theorem Within.local_cases (h : Within ops before seeds)
    (hFunction : (run ops).function? = some scope) (hName : scope.get? name ≠ none) :
    (∃ seed ∈ seeds, seed.name = name) ∨
      Ty.ofName? name = none ∧ (run ops).globals.get? name = none := by
  obtain ⟨-, scope', hRun, hSeeded⟩ := h.run_eq
  rw [hRun] at hFunction ⊢
  obtain rfl := Option.some.inj hFunction
  exact hSeeded.other hName

theorem Within.seed_of_global (h : Within ops before seeds)
    (hFunction : (run ops).function? = some scope) (hName : scope.get? name ≠ none)
    (hGlobal : (run ops).globals.get? name ≠ none) : ∃ seed ∈ seeds, seed.name = name := by
  rcases h.local_cases hFunction hName with hSeed | ⟨-, hNone⟩
  · exact hSeed
  · exact absurd hNone hGlobal

theorem Within.resolve?_seed {seed : Symbol} (h : Within ops before seeds)
    (hSeed : seeds.find? (·.name = name) = some seed) : (run ops).resolve? name = some seed := by
  obtain ⟨-, scope, hRun, hSeeded⟩ := h.run_eq
  simp [hRun, resolve?, hSeeded.seed hSeed]

theorem Within.run_leave (h : Within ops before seeds) : run (ops ++ [.leave]) = run before := by
  obtain ⟨hOutside, scope, hRun, -⟩ := h.run_eq
  rw [run_concat, hRun]
  generalize run before = scopes at hOutside ⊢
  obtain ⟨globals, function?⟩ := scopes
  obtain rfl : function? = none := hOutside
  rfl

end Within

section Declared

variable {ops : List Operation} {symbol : Symbol}
  (hAccepts : (run ops).accepts (.declare symbol) = true) (later : List Operation)

theorem run_declare (ops : List Operation) (symbol : Symbol) (later : List Operation) :
    run (ops ++ .declare symbol :: later) = ((run ops).step (.declare symbol)).runFrom later := by
  rw [run_append]
  rfl

include hAccepts

theorem gains_step_declare :
    Ty.ofName? symbol.name = none ∧ Gains symbol (run ops) ((run ops).step (.declare symbol)) := by
  have hMoves := (run ops).step_moves (.declare symbol)
  generalize (run ops).step (.declare symbol) = after at hMoves ⊢
  cases hMoves with
  | refused hRefused => cases hAccepts.symm.trans hRefused
  | declared hType hGains => exact ⟨hType, hGains⟩

theorem resolve?_declared_local (hInside : (run ops).inFunction = true)
    (hLeave : .leave ∉ later) :
    (run (ops ++ .declare symbol :: later)).resolve? symbol.name = some symbol := by
  obtain ⟨before, seeds, hWithin⟩ := exists_within hInside
  obtain ⟨-, scope, hRun, hSeeded⟩ := hWithin.run_eq
  obtain ⟨hType, hGains⟩ := gains_step_declare hAccepts
  rw [run_declare]
  generalize (run ops).step (.declare symbol) = after at hGains ⊢
  rw [hRun] at hGains
  cases hGains with
  | inside hLocal hGlobal =>
    obtain ⟨scope', hLater, -, hKeeps⟩ :=
      runFrom_inside hLeave (hSeeded.insert hType hLocal hGlobal)
    have hFound : scope'.get? symbol.name = some symbol := by
      apply hKeeps
      rw [Scope.get?_insert, if_pos rfl]
    simp [hLater, resolve?, hFound]

theorem resolve?_declared_global (hOutside : (run ops).inFunction = false)
    (hSeeds : ∀ before seeds, Within (ops ++ .declare symbol :: later) before seeds →
      ∀ seed ∈ seeds, seed.name ≠ symbol.name) :
    (run (ops ++ .declare symbol :: later)).resolve? symbol.name = some symbol := by
  have hGlobal :
      (run (ops ++ .declare symbol :: later)).globals.get? symbol.name = some symbol := by
    obtain ⟨-, hGains⟩ := gains_step_declare hAccepts
    rw [run_declare]
    apply runFrom_globals_keeps
    generalize (run ops).step (.declare symbol) = after at hGains ⊢
    generalize run ops = scopes at hGains hOutside
    cases hGains with
    | inside => cases hOutside
    | outside => rw [Scope.get?_insert, if_pos rfl]
  cases hFunction : (run (ops ++ .declare symbol :: later)).function? with
  | none => simp [resolve?, hFunction, hGlobal]
  | some scope =>
    have hInside : (run (ops ++ .declare symbol :: later)).inFunction = true := by
      rw [inFunction, hFunction]
      rfl
    have hLocal : scope.get? symbol.name = none := by
      obtain ⟨before, seeds, hWithin⟩ := exists_within hInside
      by_contra hName
      obtain ⟨seed, hSeed, hSame⟩ := hWithin.seed_of_global hFunction hName (by simp [hGlobal])
      exact hSeeds before seeds hWithin seed hSeed hSame
    simp [resolve?, hFunction, hLocal, hGlobal]

end Declared

/-! ## Any operations -/

/-- What holds of the layers after operations. -/
structure Layered (ops : List Operation) : Prop where
  /-- There are one or two layers. -/
  depth : (run ops).depth = 1 ∨ (run ops).depth = 2
  /-- There are two inside of a function that has been entered and not left. -/
  within : (run ops).depth = 2 ↔ ∃ before seeds, Within ops before seeds
  /-- No global name is the name of a type. -/
  type_global : ∀ name, (Ty.ofName? name).isSome → (run ops).globals.get? name = none
  /-- In the layer of a function only a seed has the name of a type. -/
  type_local : ∀ before seeds, Within ops before seeds → ∀ scope, (run ops).function? = some scope →
    ∀ name, (Ty.ofName? name).isSome → scope.get? name ≠ none → ∃ seed ∈ seeds, seed.name = name
  /-- Only a seed has the name of a global one. -/
  both : ∀ before seeds, Within ops before seeds → ∀ scope, (run ops).function? = some scope →
    ∀ name, scope.get? name ≠ none → (run ops).globals.get? name ≠ none →
      ∃ seed ∈ seeds, seed.name = name
  /-- The name of a seed is that of the first such seed. -/
  seed : ∀ before seeds, Within ops before seeds → ∀ name seed,
    seeds.find? (·.name = name) = some seed → (run ops).resolve? name = some seed
  /-- An operation that is refused changes nothing. -/
  refused : ∀ op, (run ops).accepts op = false → run (ops ++ [op]) = run ops
  /-- A name can be declared if it is neither the name of a type nor visible. -/
  declare_iff : ∀ symbol, (run ops).accepts (.declare symbol) = true ↔
    Ty.ofName? symbol.name = none ∧ (run ops).resolve? symbol.name = none
  /-- A name that is declared inside of a function stays until the function is left. -/
  declared_local : ∀ symbol, (run ops).accepts (.declare symbol) = true →
    (run ops).inFunction = true → ∀ later, .leave ∉ later →
      (run (ops ++ .declare symbol :: later)).resolve? symbol.name = some symbol
  /-- A name that is declared outside of functions stays, unless it is hidden by a seed. -/
  declared_global : ∀ symbol, (run ops).accepts (.declare symbol) = true →
    (run ops).inFunction = false → ∀ later,
      (∀ before seeds, Within (ops ++ .declare symbol :: later) before seeds →
        ∀ seed ∈ seeds, seed.name ≠ symbol.name) →
      (run (ops ++ .declare symbol :: later)).resolve? symbol.name = some symbol
  /-- A function that is left leaves the layers as they were before it was entered. -/
  leave : ∀ before seeds, Within ops before seeds → run (ops ++ [.leave]) = run before

theorem depth_eq_two_iff {scopes : Scopes} : scopes.depth = 2 ↔ scopes.inFunction = true := by
  unfold depth
  split <;> simp_all

/-- Whatever operations there have been, the layers are in order: there are one or two of them,
names are declared once, and a function takes nothing with it but its own layer. -/
theorem run_layered (ops : List Operation) : Layered ops where
  depth := by
    unfold depth
    split <;> simp
  within := by
    rw [depth_eq_two_iff]
    constructor
    · exact exists_within
    · rintro ⟨before, seeds, hWithin⟩
      obtain ⟨-, scope, hRun, -⟩ := hWithin.run_eq
      rw [hRun]
      rfl
  type_global name hName := runFrom_globals_eq_none hName (Scope.get?_empty name) ops
  type_local before seeds hWithin scope hFunction name hType hName := by
    rcases hWithin.local_cases hFunction hName with hSeed | ⟨hNone, -⟩
    · exact hSeed
    · rw [hNone] at hType
      cases hType
  both before seeds hWithin scope hFunction name := hWithin.seed_of_global hFunction
  seed before seeds hWithin name seed := hWithin.resolve?_seed
  refused op hRefused := by rw [run_concat, step_of_refused hRefused]
  declare_iff symbol := accepts_declare_iff
  declared_local symbol hAccepts hInside later := resolve?_declared_local hAccepts later hInside
  declared_global symbol hAccepts hOutside later :=
    resolve?_declared_global hAccepts later hOutside
  leave before seeds := Within.run_leave

end Scopes

end Jingle.Typing

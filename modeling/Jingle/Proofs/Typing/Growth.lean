import Jingle.Proofs.Typing.Erasure

/-!
# What is known only grows

A statement is checked in a state and, inside of a function, with the returns of that function.
Whatever is wrong with it, it takes back nothing that was known before: symbols and signatures stay,
a layer of names that was entered is left again, and returns are only added to. Inside of a function
nothing changes outside of it.

* `State.Grows` and `Returns.Grows` say how what is known before a statement and after it differ.
* `Stmt.check_grows` and `Stmt.check_returns_grow` say it of every statement.
* `Stmt.check_keeps_state` says what a statement keeps and what a program ends in.
* `Checker.check_append` says that a program can be checked in two parts.
-/

namespace Jingle.Typing

open Syntax

/-! ## Functions -/

/-- Every function keeps its signature. -/
def Functions.Keeps (before after : Functions) : Prop :=
  ∀ name signature, before.get? name = some signature → after.get? name = some signature

theorem Functions.Keeps.refl (functions : Functions) : functions.Keeps functions :=
  fun _ _ h => h

theorem Functions.keeps_register (functions : Functions) (signature : Signature) :
    functions.Keeps (functions.register signature) := by
  intro name found hFound
  rw [Functions.get?_register, hFound]
  split <;> rfl

/-! ## States -/

theorem optionRel_refl {α : Type} {R : α → α → Prop} (hR : ∀ a, R a a) (a : Option α) :
    Option.Rel R a a := by
  cases a with
  | none => exact .none
  | some a => exact .some (hR a)

theorem optionRel_trans {α : Type} {R : α → α → Prop} (hR : ∀ {a b c}, R a b → R b c → R a c)
    {a b c : Option α} (h : Option.Rel R a b) (h' : Option.Rel R b c) : Option.Rel R a c := by
  cases h with
  | none => exact h'
  | some hFirst =>
    cases h' with
    | some hSecond => exact .some (hR hFirst hSecond)

/-- What is known after a part of a program, compared with what was known before it. -/
structure State.Grows (before after : State) : Prop where
  /-- Global names keep their symbols. -/
  globals : before.scopes.globals.Keeps after.scopes.globals
  /-- There is a layer of a function exactly if there was one, and its names keep their symbols. -/
  function : Option.Rel Scope.Keeps before.scopes.function? after.scopes.function?
  /-- Functions keep their signatures. -/
  functions : before.functions.Keeps after.functions
  /-- Inside of a function nothing changes outside of it. -/
  inside : before.scopes.inFunction →
    after.scopes.globals = before.scopes.globals ∧ after.functions = before.functions

namespace State.Grows

theorem refl (state : State) : state.Grows state :=
  ⟨.refl _, optionRel_refl .refl _, .refl _, fun _ => ⟨rfl, rfl⟩⟩

theorem inFunction_eq {before after : State} (h : before.Grows after) :
    after.scopes.inFunction = before.scopes.inFunction := by
  have hFunction := h.function
  unfold Scopes.inFunction
  generalize before.scopes.function? = first at hFunction ⊢
  generalize after.scopes.function? = second at hFunction ⊢
  cases hFunction <;> rfl

theorem trans {before between after : State} (h : before.Grows between) (h' : between.Grows after) :
    before.Grows after := by
  refine ⟨h.globals.trans h'.globals, optionRel_trans .trans h.function h'.function, ?_, ?_⟩
  · intro name signature hFound
    exact h'.functions name signature (h.functions name signature hFound)
  · intro hInside
    obtain ⟨hGlobals, hFunctions⟩ := h.inside hInside
    obtain ⟨hGlobals', hFunctions'⟩ := h'.inside (h.inFunction_eq.trans hInside)
    exact ⟨hGlobals'.trans hGlobals, hFunctions'.trans hFunctions⟩

/-- A name that is free is declared without harm to the others. -/
theorem insert {state : State} {symbol : Symbol}
    (hFree : state.scopes.obstacle? symbol.name = none) :
    state.Grows { state with scopes := state.scopes.insert symbol } := by
  obtain ⟨hLocal, hGlobal⟩ :=
    Scopes.resolve?_eq_none_iff.mp (Scopes.obstacle?_eq_none_iff.mp hFree).2
  cases hFunction : state.scopes.function? with
  | none =>
    have hOutside : ¬ state.scopes.inFunction := by simp [Scopes.inFunction, hFunction]
    have hInsert : state.scopes.insert symbol =
        { state.scopes with globals := state.scopes.globals.insert symbol } := by
      simp only [Scopes.insert, hFunction]
    rw [hInsert]
    exact ⟨Scope.keeps_insert hGlobal, optionRel_refl .refl _, .refl _,
      fun hInside => absurd hInside hOutside⟩
  | some scope =>
    have hInsert : state.scopes.insert symbol =
        { state.scopes with function? := some (scope.insert symbol) } := by
      simp only [Scopes.insert, hFunction]
    have hKeeps := Scope.keeps_insert (hLocal scope hFunction)
    rw [hInsert]
    exact ⟨.refl _, hFunction ▸ .some hKeeps, .refl _, fun _ => ⟨rfl, rfl⟩⟩

theorem of_declares {before after : State} {name : String} (h : before.Declares name after) :
    before.Grows after := by
  cases h with
  | refused => exact .refl before
  | inserted symbol hName hFree =>
    subst hName
    exact .insert hFree

end State.Grows

/-! ## Returns -/

/-- The returns of a function after a part of its body, compared with those before it. -/
structure Returns.Grows (before after : Returns) : Prop where
  name : after.name = before.name
  expected : after.expected = before.expected
  observed : ∀ ty ∈ before.observed, ty ∈ after.observed
  count : before.count ≤ after.count

namespace Returns

theorem Grows.refl (returns : Returns) : returns.Grows returns :=
  ⟨rfl, rfl, fun _ h => h, Nat.le_refl _⟩

theorem Grows.trans {before between after : Returns} (h : before.Grows between)
    (h' : between.Grows after) : before.Grows after := by
  refine ⟨h'.name.trans h.name, h'.expected.trans h.expected, ?_, Nat.le_trans h.count h'.count⟩
  intro ty hMem
  exact h'.observed ty (h.observed ty hMem)

theorem grows_add (returns : Returns) (ty : Option Ty) : returns.Grows (returns.add ty) := by
  cases ty with
  | none => exact ⟨rfl, rfl, fun _ h => h, Nat.le_succ _⟩
  | some ty =>
    refine ⟨rfl, rfl, ?_, Nat.le_succ _⟩
    intro other hMem
    have hAll : other ∈ Ty.all := by cases other <;> decide
    have hKept : (other = ty || returns.observed.contains other) = true := by simp [hMem]
    exact List.mem_filter.mpr ⟨hAll, hKept⟩

end Returns

end Jingle.Typing

namespace Jingle.Syntax.Stmt

open Typing

/-! ## Statements -/

/-- A function is entered only outside of functions. Its body has a layer of its own, and outside of
that layer nothing is known but one more function. -/
theorem enterFn_eq_ok {state inside : State} {name : String} {parameters : List Parameter}
    {returns : Option Ty} {line : UInt32}
    (hEnter : enterFn state name parameters returns line = .ok inside) :
    state.scopes.function? = none ∧ inside.scopes.inFunction ∧
      inside.scopes.globals = state.scopes.globals ∧ state.functions.Keeps inside.functions := by
  rw [enterFn_eq] at hEnter
  by_cases hInside : state.scopes.inFunction
  · rw [if_pos hInside] at hEnter
    cases hEnter
  · rw [if_neg hInside] at hEnter
    obtain rfl := Except.ok.inj hEnter
    have hOutside : state.scopes.function? = none := by simpa [Scopes.inFunction] using hInside
    exact ⟨hOutside, rfl, rfl, state.functions.keeps_register _⟩

/-- A state that is left at the end of a function goes on where the function was entered. -/
theorem grows_leave {state inside after : State} {name : String} {parameters : List Parameter}
    {returns : Option Ty} {line : UInt32}
    (hEnter : enterFn state name parameters returns line = .ok inside)
    (hBody : inside.Grows after) :
    state.Grows { after with scopes := after.scopes.leave } := by
  obtain ⟨hFunction, hInside, hGlobals, hKeeps⟩ := enterFn_eq_ok hEnter
  obtain ⟨hGlobals', hFunctions'⟩ := hBody.inside hInside
  have hOutside : ¬ state.scopes.inFunction := by simp [Scopes.inFunction, hFunction]
  refine ⟨?_, ?_, ?_, fun h => absurd h hOutside⟩
  · intro name symbol hFound
    rw [← hGlobals, ← hGlobals'] at hFound
    exact hFound
  · rw [hFunction]
    exact .none
  · rw [← hFunctions'] at hKeeps
    exact hKeeps

mutual

theorem check_grows (state : State) (returns : Option Returns) :
    ∀ s : Stmt, state.Grows (s.check state returns).state
  | .varDecl name typeName value info =>
    .of_declares (checkVar_declares state name typeName value info)
  | .constDecl name value info => .of_declares (checkConst_declares state name value info)
  | .echo .. | .assign .. | .ret .. => .refl state
  | .branch _ ⟨_, thenBody⟩ ⟨_, elseBody⟩ _ => by
    rw [check]
    dsimp only
    split
    · exact (checkAll_grows state returns thenBody).trans (checkAll_grows _ _ elseBody)
    · exact .refl state
  | .loop _ ⟨_, body⟩ _ => by
    rw [check]
    dsimp only
    split
    · exact checkAll_grows state returns body
    · exact .refl state
  | .fnDecl name parameters typeName ⟨_, body⟩ line => by
    rw [check]
    dsimp only
    split
    · exact .refl state
    · next inside hEnter => exact grows_leave hEnter (checkAll_grows inside _ body)

theorem checkAll_grows (state : State) (returns : Option Returns) :
    ∀ stmts : List Stmt, state.Grows (checkAll state returns stmts).state
  | [] => .refl state
  | s :: stmts => (check_grows state returns s).trans (checkAll_grows _ _ stmts)

end

/-- The returns of a function in a function are not those of the function around it. -/
theorem check_fnDecl_returns (state : State) (returns : Option Returns) (name : String)
    (parameters : List Parameter) (typeName : TypeName) (body : Block) (line : UInt32) :
    ((fnDecl name parameters typeName body line).check state returns).returns = returns := by
  obtain ⟨bodyLine, body⟩ := body
  rw [check]
  dsimp only
  split <;> rfl

mutual

theorem check_returns_grow (state : State) (returns : Option Returns) :
    ∀ s : Stmt, Option.Rel Returns.Grows returns (s.check state returns).returns
  | .varDecl .. | .constDecl .. | .echo .. | .assign .. => optionRel_refl .refl returns
  | .branch _ ⟨_, thenBody⟩ ⟨_, elseBody⟩ _ => by
    rw [check]
    dsimp only
    split
    · exact optionRel_trans .trans (checkAll_returns_grow state returns thenBody)
        (checkAll_returns_grow _ _ elseBody)
    · exact optionRel_refl .refl returns
  | .loop _ ⟨_, body⟩ _ => by
    rw [check]
    dsimp only
    split
    · exact checkAll_returns_grow state returns body
    · exact optionRel_refl .refl returns
  | .fnDecl name parameters typeName body line => by
    rw [check_fnDecl_returns]
    exact optionRel_refl .refl returns
  | .ret .. => by
    cases returns with
    | none => exact .none
    | some returns => exact .some (returns.grows_add _)

theorem checkAll_returns_grow (state : State) (returns : Option Returns) :
    ∀ stmts : List Stmt, Option.Rel Returns.Grows returns (checkAll state returns stmts).returns
  | [] => optionRel_refl .refl returns
  | s :: stmts => optionRel_trans .trans (check_returns_grow state returns s)
      (checkAll_returns_grow _ _ stmts)

end

/-- Statements outside of functions leave no returns behind. -/
theorem checkAll_returns_none (state : State) (stmts : List Stmt) :
    (checkAll state none stmts).returns = none := by
  have hGrow := checkAll_returns_grow state none stmts
  generalize (checkAll state none stmts).returns = after at hGrow ⊢
  cases hGrow
  rfl

/-- In every state and with every returns a statement leaves the layers of names as many as they
were, keeps everything that was known, and changes nothing outside of a function from inside of it.
It keeps the function around it with its name and its type and only adds to its returns, and the
declaration of a function leaves them as they were. So every program, with all of its errors, ends
outside of functions. -/
theorem check_keeps_state :
    (∀ (state : State) (returns : Option Returns) (s : Stmt),
      let outcome := s.check state returns
      outcome.state.scopes.inFunction = state.scopes.inFunction ∧
        outcome.state.scopes.depth = state.scopes.depth ∧
        state.Grows outcome.state ∧ Option.Rel Returns.Grows returns outcome.returns) ∧
    (∀ (state : State) (returns : Option Returns) (name : String) (parameters : List Parameter)
      (typeName : TypeName) (body : Block) (line : UInt32),
      ((fnDecl name parameters typeName body line).check state returns).returns = returns) ∧
    ∀ (block : Block) (reported : List Diagnostic),
      (Checker.check ⟨.initial, reported⟩ block).2.state.scopes.depth = 1 := by
  refine ⟨?_, check_fnDecl_returns, ?_⟩
  · intro state returns s
    have hGrows := check_grows state returns s
    have hDepth : (s.check state returns).state.scopes.depth = state.scopes.depth := by
      rw [Scopes.depth, Scopes.depth, hGrows.inFunction_eq]
    exact ⟨hGrows.inFunction_eq, hDepth, hGrows, check_returns_grow state returns s⟩
  · intro block reported
    have hGrows := checkAll_grows .initial none block.body
    rw [Checker.check_eq, Scopes.depth]
    apply if_neg
    rw [Block.checkFrom, hGrows.inFunction_eq]
    decide

theorem checkAll_append (state : State) (returns : Option Returns) (first second : List Stmt) :
    checkAll state returns (first ++ second) =
      let before := checkAll state returns first
      let after := checkAll before.state before.returns second
      ⟨before.tree ++ after.tree, after.state, after.returns,
        before.diagnostics ++ after.diagnostics⟩ := by
  induction first generalizing state returns with
  | nil => rfl
  | cons s first ih => simp only [List.cons_append, checkAll, ih, List.append_assoc]

end Jingle.Syntax.Stmt

/-! ## One program after another -/

namespace Jingle.Typing.Checker

open Syntax

/-- Statements that are checked in two parts, one after the other by one checker, are annotated and
reported on as if they were checked at once, and the checker is the same afterwards. -/
theorem check_append (checker : Checker) (first second : List Stmt) (line line₁ line₂ : UInt32) :
    let front := checker.check ⟨line₁, first⟩
    let back := front.2.check ⟨line₂, second⟩
    checker.check ⟨line, first ++ second⟩ = (⟨line, front.1.body ++ back.1.body⟩, back.2) := by
  have hReturns := Stmt.checkAll_returns_none checker.state first
  simp only [check_eq, Block.checkFrom, Stmt.checkAll_append, hReturns, List.append_assoc]

end Jingle.Typing.Checker

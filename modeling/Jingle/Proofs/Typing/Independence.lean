import Jingle.Proofs.Syntax.Tree
import Jingle.Proofs.Typing.Growth

/-!
# Independent statements

A statement reads only what is known about the identifiers that occur in it, and it changes only what
is known about those that it declares. Two statements that declare nothing that occurs in the other
can therefore change places.

* `Stmt.declared` and `Stmt.mentioned` list the identifiers of a statement.
* `State.AgreesOn` says that two states know the same about some identifiers.
* `Stmt.check_agreesOn` says that the outcome of a statement follows from what is known about its
  identifiers, and `Stmt.check_spares` that it keeps what is known about all others.
* `Stmt.check_comm` says that independent statements commute.
-/

namespace Jingle.Syntax

/-! ## Identifiers -/

/-- The identifier that a node declares, reads, writes or calls. -/
def Node.mentioned? : Node → Option Identifier
  | location l => some (.name l.name)
  | expr (.call callee _ _) => some (.function callee)
  | node => node.declared?

namespace Stmt

/-- The identifiers that are declared anywhere in a statement. -/
def declared (s : Stmt) : List Identifier :=
  (s.outline 0).filterMap (·.2.declared?)

/-- The identifiers that occur anywhere in a statement. -/
def mentioned (s : Stmt) : List Identifier :=
  (s.outline 0).filterMap (·.2.mentioned?)

end Stmt

theorem Node.mentioned?_of_declared? {node : Node} {i : Identifier}
    (h : node.declared? = some i) : node.mentioned? = some i := by
  cases node with
  | stmt | typeName | parameter => exact h
  | expr | location => cases h

theorem Stmt.mentioned_of_declared {s : Stmt} {i : Identifier} (h : i ∈ s.declared) :
    i ∈ s.mentioned := by
  obtain ⟨entry, hMem, hDeclared⟩ := List.mem_filterMap.mp h
  exact List.mem_filterMap.mpr ⟨entry, hMem, Node.mentioned?_of_declared? hDeclared⟩

/-- A node that mentions only identifiers of some sort. -/
def Node.Within (on : Identifier → Prop) (node : Node) : Prop :=
  ∀ i, node.mentioned? = some i → on i

/-- A node that declares no identifiers of some sort. -/
def Node.Spares (on : Identifier → Prop) (node : Node) : Prop :=
  ∀ i, node.declared? = some i → ¬ on i

theorem Stmt.all_within (s : Stmt) : s.All (Node.Within (· ∈ s.mentioned)) := by
  apply (Stmt.forall_outline_iff _ 0 s).mp
  intro entry hMem i hMentioned
  exact List.mem_filterMap.mpr ⟨entry, hMem, hMentioned⟩

theorem Stmt.all_spares (s : Stmt) : s.All (Node.Spares (· ∉ s.declared)) := by
  apply (Stmt.forall_outline_iff _ 0 s).mp
  intro entry hMem i hDeclared hNot
  exact hNot (List.mem_filterMap.mpr ⟨entry, hMem, hDeclared⟩)

end Jingle.Syntax

/-! ## States that agree -/

namespace Jingle.Typing

open Syntax

/-- Two states know the same about some identifiers, layer by layer. -/
structure State.AgreesOn (on : Identifier → Prop) (a b : State) : Prop where
  inFunction : a.scopes.inFunction = b.scopes.inFunction
  globals : ∀ name, on (.name name) → a.scopes.globals.get? name = b.scopes.globals.get? name
  function : ∀ name, on (.name name) →
    a.scopes.function?.bind (·.get? name) = b.scopes.function?.bind (·.get? name)
  functions : ∀ name, on (.function name) → a.functions.get? name = b.functions.get? name

/-- Two states know the same, in whatever order they keep it. -/
def State.Same (a b : State) : Prop :=
  a.AgreesOn (fun _ => True) b

namespace State.AgreesOn

variable {on on' : Identifier → Prop} {a b c : State}

theorem refl (on : Identifier → Prop) (state : State) : state.AgreesOn on state :=
  ⟨rfl, fun _ _ => rfl, fun _ _ => rfl, fun _ _ => rfl⟩

theorem symm (h : a.AgreesOn on b) : b.AgreesOn on a where
  inFunction := h.inFunction.symm
  globals name hOn := (h.globals name hOn).symm
  function name hOn := (h.function name hOn).symm
  functions name hOn := (h.functions name hOn).symm

theorem trans (h : a.AgreesOn on b) (h' : b.AgreesOn on c) : a.AgreesOn on c where
  inFunction := h.inFunction.trans h'.inFunction
  globals name hOn := (h.globals name hOn).trans (h'.globals name hOn)
  function name hOn := (h.function name hOn).trans (h'.function name hOn)
  functions name hOn := (h.functions name hOn).trans (h'.functions name hOn)

theorem mono (h : a.AgreesOn on b) (hOn : ∀ i, on' i → on i) : a.AgreesOn on' b where
  inFunction := h.inFunction
  globals name hName := h.globals name (hOn _ hName)
  function name hName := h.function name (hOn _ hName)
  functions name hName := h.functions name (hOn _ hName)

/-- Agreement on two sorts of identifiers is agreement on all of them. -/
theorem union (h : a.AgreesOn on b) (h' : a.AgreesOn on' b) :
    a.AgreesOn (fun i => on i ∨ on' i) b where
  inFunction := h.inFunction
  globals name hOn := hOn.elim (h.globals name) (h'.globals name)
  function name hOn := hOn.elim (h.function name) (h'.function name)
  functions name hOn := hOn.elim (h.functions name) (h'.functions name)

theorem resolve?_eq (h : a.AgreesOn on b) {name : String} (hOn : on (.name name)) :
    a.scopes.resolve? name = b.scopes.resolve? name := by
  rw [Scopes.resolve?, Scopes.resolve?, h.globals name hOn, h.function name hOn]

theorem obstacle?_eq (h : a.AgreesOn on b) {name : String} (hOn : on (.name name)) :
    a.scopes.obstacle? name = b.scopes.obstacle? name := by
  rw [Scopes.obstacle?, Scopes.obstacle?, h.resolve?_eq hOn]

/-- The same declaration in both states. -/
theorem insert (h : a.AgreesOn on b) (symbol : Symbol) :
    AgreesOn on { a with scopes := a.scopes.insert symbol }
      { b with scopes := b.scopes.insert symbol } where
  inFunction := by
    rw [Scopes.inFunction_insert, Scopes.inFunction_insert, h.inFunction]
  globals name hOn := by
    rw [Scopes.globals_insert, Scopes.globals_insert, h.inFunction, h.globals name hOn]
  function name hOn := by
    rw [Scopes.function?_insert, Scopes.function?_insert, h.inFunction, h.function name hOn]
  functions := h.functions

/-- A declaration of a name that does not matter. -/
theorem of_declares {state after : State} {name : String} (h : state.Declares name after)
    (hOff : ¬ on (.name name)) : state.AgreesOn on after := by
  cases h with
  | refused => exact .refl on state
  | inserted symbol hName _ =>
    have hOther : ∀ other, on (.name other) → symbol.name ≠ other := by
      intro other hOn hSame
      exact hOff (hName ▸ hSame ▸ hOn)
    refine ⟨(Scopes.inFunction_insert ..).symm, ?_, ?_, fun _ _ => rfl⟩
    · intro other hOn
      rw [Scopes.globals_insert, if_neg (fun h => hOther other hOn h.2)]
    · intro other hOn
      rw [Scopes.function?_insert, if_neg (fun h => hOther other hOn h.2)]

/-- The same function entered in both states. -/
theorem enter (h : a.AgreesOn on b) (scope : Scope) (signature : Signature) :
    AgreesOn on ⟨⟨a.scopes.globals, some scope⟩, a.functions.register signature⟩
      ⟨⟨b.scopes.globals, some scope⟩, b.functions.register signature⟩ where
  inFunction := rfl
  globals := h.globals
  function _ _ := rfl
  functions name hOn := by
    rw [Functions.get?_register, Functions.get?_register, h.functions name hOn]

theorem leave (h : a.AgreesOn on b) :
    AgreesOn on { a with scopes := a.scopes.leave } { b with scopes := b.scopes.leave } where
  inFunction := rfl
  globals := h.globals
  function _ _ := rfl
  functions := h.functions

/-- A function that does not matter, entered and left again. -/
theorem of_leave {state after : State} {scope : Scope} {signature : Signature}
    (hOutside : state.scopes.function? = none) (hOff : ¬ on (.function signature.name))
    (h : AgreesOn on ⟨⟨state.scopes.globals, some scope⟩, state.functions.register signature⟩
      after) :
    state.AgreesOn on { after with scopes := after.scopes.leave } where
  inFunction := by
    rw [Scopes.inFunction, hOutside]
    rfl
  globals := h.globals
  function _ _ := by
    rw [hOutside]
    rfl
  functions name hOn := by
    have hName : signature.name ≠ name := fun h => hOff (h ▸ hOn)
    have hKept := h.functions name hOn
    rw [Functions.get?_register, if_neg hName] at hKept
    exact hKept

end State.AgreesOn

/-- The same outcome, but for what is known about identifiers that do not matter. -/
structure Outcome.AgreesOn {α : Type} (on : Identifier → Prop) (a b : Outcome α) : Prop where
  tree : a.tree = b.tree
  state : a.state.AgreesOn on b.state
  returns : a.returns = b.returns
  diagnostics : a.diagnostics = b.diagnostics

end Jingle.Typing

namespace Jingle.Syntax

open Typing

/-! ## What is read -/

section Read

variable {on : Identifier → Prop} {a b : State}

theorem Location.check_agreesOn (h : a.AgreesOn on b) {location : Location}
    (hOn : on (.name location.name)) : location.check a.scopes = location.check b.scopes := by
  have hVerdict : Verdict.ofLocation a.scopes location.name =
      Verdict.ofLocation b.scopes location.name := by
    rw [Verdict.ofLocation, Verdict.ofLocation, Scopes.lookup, Scopes.lookup, h.resolve?_eq hOn]
  rw [Location.check, Location.check, hVerdict]

mutual

/-- An expression reads only what is known about its identifiers. -/
theorem Expr.check_agreesOn (h : a.AgreesOn on b) :
    ∀ e : Expr, e.All (Node.Within on) → e.check a = e.check b
  | .literal .., _ => rfl
  | .binary _ left right _, hAll => by
    rw [Expr.check, Expr.check, left.check_agreesOn h hAll.2.1, right.check_agreesOn h hAll.2.2]
  | .unary _ operand _, hAll => by
    rw [Expr.check, Expr.check, operand.check_agreesOn h hAll.2]
  | .symbol location _, hAll => by
    have hOn : on (.name location.name) := hAll.2 _ rfl
    rw [Expr.check, Expr.check, Location.check_agreesOn h hOn]
  | .call callee arguments _, hAll => by
    have hOn : on (.function callee) := hAll.1 _ rfl
    have hVerdict : Verdict.ofCall a.functions callee = Verdict.ofCall b.functions callee := by
      funext types
      rw [Verdict.ofCall, Verdict.ofCall, h.functions callee hOn]
    rw [Expr.check, Expr.check, Expr.checkAll_agreesOn h arguments hAll.2, hVerdict]

theorem Expr.checkAll_agreesOn (h : a.AgreesOn on b) :
    ∀ exprs : List Expr, Expr.AllIn (Node.Within on) exprs →
      Expr.checkAll a exprs = Expr.checkAll b exprs
  | [], _ => rfl
  | e :: exprs, hAll => by
    rw [Expr.checkAll, Expr.checkAll, e.check_agreesOn h hAll.1,
      Expr.checkAll_agreesOn h exprs hAll.2]

end

theorem Expr.checkOption_agreesOn (h : a.AgreesOn on b) (value : Option Expr)
    (hAll : ∀ e ∈ value, e.All (Node.Within on)) :
    Expr.checkOption a value = Expr.checkOption b value := by
  cases value with
  | none => rfl
  | some e => rw [Expr.checkOption, Expr.checkOption, e.check_agreesOn h (hAll e rfl)]

namespace Stmt

variable (returns : Option Returns)

theorem checkVar_agreesOn (h : a.AgreesOn on b) {name : String} {value : Option Expr}
    (typeName : TypeName) (info : Info) (hOn : on (.name name))
    (hAll : ∀ e ∈ value, e.All (Node.Within on)) :
    ((varDecl name typeName value info).check a returns).AgreesOn on
      ((varDecl name typeName value info).check b returns) := by
  have hSame := h.obstacle?_eq hOn
  rw [check, check]
  cases hObstacle : b.scopes.obstacle? name with
  | some violation =>
    rw [checkVar_of_taken typeName value info hObstacle,
      checkVar_of_taken typeName value info (hSame.trans hObstacle)]
    exact ⟨rfl, h, rfl, rfl⟩
  | none =>
    rw [checkVar_of_free typeName value info hObstacle,
      checkVar_of_free typeName value info (hSame.trans hObstacle),
      Expr.checkOption_agreesOn h value hAll]
    refine ⟨rfl, ?_, rfl, rfl⟩
    dsimp only
    split
    · exact h
    · exact h.insert _

theorem checkConst_agreesOn (h : a.AgreesOn on b) {name : String} {value : Expr} (info : Info)
    (hOn : on (.name name)) (hAll : value.All (Node.Within on)) :
    ((constDecl name value info).check a returns).AgreesOn on
      ((constDecl name value info).check b returns) := by
  have hSame := h.obstacle?_eq hOn
  rw [check, check]
  cases hObstacle : b.scopes.obstacle? name with
  | some violation =>
    rw [checkConst_of_taken value info hObstacle,
      checkConst_of_taken value info (hSame.trans hObstacle)]
    exact ⟨rfl, h, rfl, rfl⟩
  | none =>
    rw [checkConst_of_free value info hObstacle,
      checkConst_of_free value info (hSame.trans hObstacle), value.check_agreesOn h hAll]
    exact ⟨rfl, h.insert _, rfl, rfl⟩

theorem checkAssign_agreesOn (h : a.AgreesOn on b) {target : Location} {value : Expr} (info : Info)
    (hOn : on (.name target.name)) (hAll : value.All (Node.Within on)) :
    checkAssign a target value info = checkAssign b target value info := by
  have hVerdict : Verdict.ofAssignment a.scopes target.name =
      Verdict.ofAssignment b.scopes target.name := by
    unfold Verdict.ofAssignment
    rw [h.resolve?_eq hOn]
  have hName : (target.check b.scopes).1.name = target.name := rfl
  unfold checkAssign
  rw [Location.check_agreesOn h hOn, value.check_agreesOn h hAll]
  simp only [hName, hVerdict]

theorem checkHead_agreesOn (h : a.AgreesOn on b) {name : String} (parameters : List Parameter)
    (typeName : TypeName) (line : UInt32) (hOn : on (.function name)) :
    checkHead a name parameters typeName line = checkHead b name parameters typeName line := by
  unfold checkHead
  rw [h.functions name hOn]

mutual

/-- The outcome of a statement follows from what is known about its identifiers. -/
theorem check_agreesOn {a b : State} (h : a.AgreesOn on b) (returns : Option Returns) :
    ∀ s : Stmt, s.All (Node.Within on) → (s.check a returns).AgreesOn on (s.check b returns)
  | .varDecl _ typeName _ info, hAll =>
    checkVar_agreesOn returns h typeName info (hAll.1 _ rfl) hAll.2.2
  | .constDecl _ _ info, hAll => checkConst_agreesOn returns h info (hAll.1 _ rfl) hAll.2
  | .echo value _, hAll => by
    rw [check, check, value.check_agreesOn h hAll.2]
    exact ⟨rfl, h, rfl, rfl⟩
  | .branch condition ⟨_, thenBody⟩ ⟨_, elseBody⟩ _, hAll => by
    have hThen := checkAll_agreesOn h returns thenBody hAll.2.2.1
    have hElse := checkAll_agreesOn hThen.state (checkAll a returns thenBody).returns elseBody
      hAll.2.2.2
    rw [check, check, condition.check_agreesOn h hAll.2.1]
    dsimp only
    split
    · rw [← hThen.returns, ← hThen.tree, ← hThen.diagnostics, ← hElse.tree, ← hElse.diagnostics]
      exact ⟨rfl, hElse.state, hElse.returns, rfl⟩
    · exact ⟨rfl, h, rfl, rfl⟩
  | .loop condition ⟨_, body⟩ _, hAll => by
    have hBody := checkAll_agreesOn h returns body hAll.2.2
    rw [check, check, condition.check_agreesOn h hAll.2.1]
    dsimp only
    split
    · rw [← hBody.tree, ← hBody.diagnostics]
      exact ⟨rfl, hBody.state, hBody.returns, rfl⟩
    · exact ⟨rfl, h, rfl, rfl⟩
  | .assign _ value info, hAll => by
    have hOutcome := checkAssign_agreesOn h info (hAll.2.1 _ rfl) hAll.2.2
    rw [check, check, hOutcome]
    exact ⟨rfl, h, rfl, rfl⟩
  | .fnDecl name parameters typeName ⟨_, body⟩ line, hAll => by
    rw [check, check, checkHead_agreesOn h parameters typeName line (hAll.1 _ rfl)]
    simp only [enterFn_eq, h.inFunction]
    by_cases hInside : b.scopes.inFunction
    · rw [if_pos hInside, if_pos hInside]
      exact ⟨rfl, h, rfl, rfl⟩
    · rw [if_neg hInside, if_neg hInside]
      have hBody := fun scope signature returns =>
        checkAll_agreesOn (h.enter scope signature) returns body hAll.2.2.2
      refine ⟨?_, (hBody _ _ _).state.leave, rfl, ?_⟩
      · simp only [(hBody _ _ _).tree]
      · simp only [(hBody _ _ _).diagnostics, (hBody _ _ _).returns]
  | .ret value _, hAll => by
    rw [check, check, value.check_agreesOn h hAll.2]
    exact ⟨rfl, h, rfl, rfl⟩

theorem checkAll_agreesOn {a b : State} (h : a.AgreesOn on b) (returns : Option Returns) :
    ∀ stmts : List Stmt, AllIn (Node.Within on) stmts →
      (checkAll a returns stmts).AgreesOn on (checkAll b returns stmts)
  | [], _ => ⟨rfl, h, rfl, rfl⟩
  | s :: stmts, hAll => by
    have hFirst := check_agreesOn h returns s hAll.1
    have hOthers := checkAll_agreesOn hFirst.state (s.check a returns).returns stmts hAll.2
    rw [checkAll, checkAll, ← hFirst.returns, ← hFirst.tree, ← hFirst.diagnostics, ← hOthers.tree,
      ← hOthers.diagnostics]
    exact ⟨rfl, hOthers.state, hOthers.returns, rfl⟩

end

end Stmt

end Read

/-! ## What is kept -/

namespace Stmt

variable {on : Identifier → Prop}

mutual

/-- A statement keeps what is known about identifiers that it does not declare. -/
theorem check_spares (state : State) (returns : Option Returns) :
    ∀ s : Stmt, s.All (Node.Spares on) → state.AgreesOn on (s.check state returns).state
  | .varDecl name typeName value info, hAll =>
    .of_declares (checkVar_declares state name typeName value info) (hAll.1 _ rfl)
  | .constDecl name value info, hAll =>
    .of_declares (checkConst_declares state name value info) (hAll.1 _ rfl)
  | .echo .., _ | .assign .., _ | .ret .., _ => .refl on state
  | .branch _ ⟨_, thenBody⟩ ⟨_, elseBody⟩ _, hAll => by
    rw [check]
    dsimp only
    split
    · exact (checkAll_spares state returns thenBody hAll.2.2.1).trans
        (checkAll_spares _ _ elseBody hAll.2.2.2)
    · exact .refl on state
  | .loop _ ⟨_, body⟩ _, hAll => by
    rw [check]
    dsimp only
    split
    · exact checkAll_spares state returns body hAll.2.2
    · exact .refl on state
  | .fnDecl name parameters typeName ⟨_, body⟩ line, hAll => by
    have hOff : ¬ on (.function name) := hAll.1 _ rfl
    rw [check]
    simp only [enterFn_eq]
    by_cases hInside : state.scopes.inFunction
    · rw [if_pos hInside]
      exact .refl on state
    · rw [if_neg hInside]
      have hFunction : state.scopes.function? = none := by
        simpa [Scopes.inFunction] using hInside
      exact .of_leave hFunction hOff (checkAll_spares _ _ body hAll.2.2.2)

theorem checkAll_spares (state : State) (returns : Option Returns) :
    ∀ stmts : List Stmt, AllIn (Node.Spares on) stmts →
      state.AgreesOn on (checkAll state returns stmts).state
  | [], _ => .refl on state
  | s :: stmts, hAll =>
    (check_spares state returns s hAll.1).trans (checkAll_spares _ _ stmts hAll.2)

end

/-! ## Independent statements -/

theorem check_returns_none (state : State) (s : Stmt) : (s.check state none).returns = none :=
  checkAll_returns_none state [s]

/-- The outcome of the second of two statements that have no function around them. -/
def checkAfter (state : State) (first second : Stmt) : Outcome Stmt :=
  let before := first.check state none
  second.check before.state before.returns

section Independent

variable {state : State} {first second : Stmt}

theorem checkAfter_spares : (first.check state none).state.AgreesOn (· ∉ second.declared)
    (checkAfter state first second).state :=
  check_spares _ _ second second.all_spares

/-- What neither of two statements declares is known as it was before them. -/
theorem checkAfter_spares_both (state : State) (first second : Stmt) :
    state.AgreesOn (fun i => i ∉ first.declared ∧ i ∉ second.declared)
      (checkAfter state first second).state := by
  have hFirst := check_spares state none first first.all_spares
  have hSecond : (first.check state none).state.AgreesOn (· ∉ second.declared) _ :=
    checkAfter_spares
  exact (hFirst.mono fun _ h => h.1).trans (hSecond.mono fun _ h => h.2)

/-- A statement has the same outcome after another one that declares nothing that occurs in it. -/
theorem checkAfter_agreesOn (h : ∀ i ∈ first.declared, i ∉ second.mentioned) :
    (checkAfter state first second).AgreesOn (· ∈ second.mentioned) (second.check state none) := by
  have hSpared : state.AgreesOn (· ∉ first.declared) (first.check state none).state :=
    check_spares state none first first.all_spares
  have hBefore : (first.check state none).state.AgreesOn (· ∈ second.mentioned) state :=
    hSpared.symm.mono fun i hMem hDeclared => h i hDeclared hMem
  rw [checkAfter, check_returns_none]
  exact check_agreesOn hBefore none second second.all_within

/-- What the first of two statements declares is the same after both of them in either order. -/
theorem checkAfter_agreesOn_declared (hFirst : ∀ i ∈ first.declared, i ∉ second.mentioned)
    (hSecond : ∀ i ∈ second.declared, i ∉ first.mentioned) :
    (checkAfter state second first).state.AgreesOn (· ∈ first.declared)
      (checkAfter state first second).state := by
  have hOutcome : (checkAfter state second first).AgreesOn (· ∈ first.mentioned)
      (first.check state none) := checkAfter_agreesOn hSecond
  have hOnly : ∀ i ∈ first.declared, i ∉ second.declared :=
    fun i hMem hDeclared => hFirst i hMem (mentioned_of_declared hDeclared)
  exact (hOutcome.state.mono fun _ => mentioned_of_declared).trans (checkAfter_spares.mono hOnly)

end Independent

/-- In every state, two statements without a function around them that declare nothing that occurs
in the other can be checked in either order. Each of them gets the same annotations and diagnostics,
and what is known afterwards is the same. -/
theorem check_comm (state : State) {first second : Stmt}
    (hFirst : ∀ i ∈ first.declared, i ∉ second.mentioned)
    (hSecond : ∀ i ∈ second.declared, i ∉ first.mentioned) :
    let one := first.check state none
    let two := checkAfter state first second
    let two' := second.check state none
    let one' := checkAfter state second first
    (one'.tree = one.tree ∧ one'.diagnostics = one.diagnostics) ∧
      (two.tree = two'.tree ∧ two.diagnostics = two'.diagnostics) ∧
      one'.returns = two.returns ∧ one'.state.Same two.state := by
  intro one two two' one'
  have hOne : one'.AgreesOn (· ∈ first.mentioned) one := checkAfter_agreesOn hSecond
  have hTwo : two.AgreesOn (· ∈ second.mentioned) two' := checkAfter_agreesOn hFirst
  refine ⟨⟨hOne.tree, hOne.diagnostics⟩, ⟨hTwo.tree, hTwo.diagnostics⟩, ?_, ?_⟩
  · rw [hOne.returns, hTwo.returns, check_returns_none, check_returns_none]
  -- An identifier is declared by the first statement, by the second, or by neither of them.
  have hDeclared : one'.state.AgreesOn (· ∈ first.declared) two.state :=
    checkAfter_agreesOn_declared hFirst hSecond
  have hDeclared' : one'.state.AgreesOn (· ∈ second.declared) two.state :=
    (checkAfter_agreesOn_declared hSecond hFirst).symm
  have hOthers : one'.state.AgreesOn (fun i => i ∉ first.declared ∧ i ∉ second.declared)
      two.state := by
    have hBack := (checkAfter_spares_both state second first).symm.mono fun _ => And.symm
    exact hBack.trans (checkAfter_spares_both state first second)
  apply ((hDeclared.union hDeclared').union hOthers).mono
  intro i _
  by_cases hMem : i ∈ first.declared
  · exact .inl (.inl hMem)
  · by_cases hMem' : i ∈ second.declared
    · exact .inl (.inr hMem')
    · exact .inr ⟨hMem, hMem'⟩

/-- The function `f` returns its parameter and the function `g` what an unknown function returns.
The later of them stands in front, and still the same is known. -/
theorem check_comm_functions :
    let f : Stmt := .fnDecl "f" [⟨⟨1, none⟩, "x", ⟨⟨1, none⟩, "int"⟩⟩] ⟨⟨1, none⟩, "int"⟩
      ⟨1, [.ret (.symbol ⟨⟨1, none⟩, "x"⟩ ⟨1, none⟩) ⟨1, none⟩]⟩ 1
    let g : Stmt := .fnDecl "g" [] ⟨⟨2, none⟩, "int"⟩
      ⟨2, [.ret (.call "h" [] ⟨2, none⟩) ⟨2, none⟩]⟩ 2
    let there := checkAfter .initial f g
    let back := checkAfter .initial g f
    (∀ i ∈ f.declared, i ∉ g.mentioned) ∧ (∀ i ∈ g.declared, i ∉ f.mentioned) ∧
      there.diagnostics = [⟨2, .functionNotDeclared "h"⟩] ∧ back.diagnostics = [] ∧
      back.state ≠ there.state ∧ back.state.Same there.state := by
  intro f g there back
  have hFirst : ∀ i ∈ f.declared, i ∉ g.mentioned := by decide
  have hSecond : ∀ i ∈ g.declared, i ∉ f.mentioned := by decide
  exact ⟨hFirst, hSecond, rfl, rfl, by decide, (check_comm .initial hFirst hSecond).2.2.2⟩

end Stmt

end Jingle.Syntax

import Jingle.Proofs.Typing.Declaration
import Jingle.Typing.Checker

/-!
# Types are written and not read

Checking overwrites the types of the nodes that it visits and looks at none that it finds. Two trees
that differ only in their types take the same course, the parts that are not visited stay as they
are, and a tree that has been checked is not changed by checking it again.

* `Block.eraseTypes` erases the types of a tree and keeps everything else.
* `Stmt.check_eraseTypes` says that the course of a check does not depend on types,
  `Stmt.eraseTypes_check` that a check changes nothing but types, and `Stmt.check_check` that it
  has nothing more to write the second time.
* `Checker.check_of_eraseTypes_eq` says all of this about whole programs.
-/

namespace Jingle.Syntax

open Typing

/-! ## Trees without types -/

def Info.eraseTypes (info : Info) : Info :=
  { info with ty := none }

def Location.eraseTypes (location : Location) : Location :=
  { location with ty := none }

def TypeName.eraseTypes (typeName : TypeName) : TypeName :=
  { typeName with ty := none }

def Parameter.eraseTypes (parameter : Parameter) : Parameter :=
  { parameter with ty := none, typeName := parameter.typeName.eraseTypes }

mutual

/-- An expression without the types of its nodes. -/
def Expr.eraseTypes : Expr → Expr
  | .literal value info => .literal value info.eraseTypes
  | .binary op left right info => .binary op left.eraseTypes right.eraseTypes info.eraseTypes
  | .unary op operand info => .unary op operand.eraseTypes info.eraseTypes
  | .symbol location info => .symbol location.eraseTypes info.eraseTypes
  | .call callee arguments info => .call callee (Expr.eraseAllTypes arguments) info.eraseTypes

def Expr.eraseAllTypes : List Expr → List Expr
  | [] => []
  | e :: exprs => e.eraseTypes :: Expr.eraseAllTypes exprs

end

mutual

/-- A statement without the types of its nodes. -/
def Stmt.eraseTypes : Stmt → Stmt
  | .varDecl name typeName value info =>
    .varDecl name typeName.eraseTypes (value.map Expr.eraseTypes) info.eraseTypes
  | .constDecl name value info => .constDecl name value.eraseTypes info.eraseTypes
  | .echo value line => .echo value.eraseTypes line
  | .branch condition ⟨thenLine, thenBody⟩ ⟨elseLine, elseBody⟩ line =>
    .branch condition.eraseTypes ⟨thenLine, Stmt.eraseAllTypes thenBody⟩
      ⟨elseLine, Stmt.eraseAllTypes elseBody⟩ line
  | .loop condition ⟨bodyLine, body⟩ line =>
    .loop condition.eraseTypes ⟨bodyLine, Stmt.eraseAllTypes body⟩ line
  | .assign target value info => .assign target.eraseTypes value.eraseTypes info.eraseTypes
  | .fnDecl name parameters returns ⟨bodyLine, body⟩ line =>
    .fnDecl name (parameters.map Parameter.eraseTypes) returns.eraseTypes
      ⟨bodyLine, Stmt.eraseAllTypes body⟩ line
  | .ret value info => .ret value.eraseTypes info.eraseTypes

def Stmt.eraseAllTypes : List Stmt → List Stmt
  | [] => []
  | s :: stmts => s.eraseTypes :: Stmt.eraseAllTypes stmts

end

/-- A block without the types of its nodes. -/
def Block.eraseTypes (block : Block) : Block :=
  ⟨block.line, Stmt.eraseAllTypes block.body⟩

/-! ## Expressions -/

mutual

theorem Expr.check_eraseTypes (state : State) : ∀ e : Expr, e.eraseTypes.check state = e.check state
  | .literal .. => rfl
  | .binary _ left right _ => by
    simp only [Expr.eraseTypes, Expr.check, left.check_eraseTypes, right.check_eraseTypes]
    rfl
  | .unary _ operand _ => by
    simp only [Expr.eraseTypes, Expr.check, operand.check_eraseTypes]
    rfl
  | .symbol .. => rfl
  | .call _ arguments _ => by
    simp only [Expr.eraseTypes, Expr.check, Expr.checkAll_eraseTypes state arguments]
    rfl

theorem Expr.checkAll_eraseTypes (state : State) :
    ∀ exprs : List Expr, Expr.checkAll state (Expr.eraseAllTypes exprs) = Expr.checkAll state exprs
  | [] => rfl
  | e :: exprs => by
    simp only [Expr.eraseAllTypes, Expr.checkAll, e.check_eraseTypes, Expr.checkAll_eraseTypes]

end

mutual

theorem Expr.eraseTypes_check (state : State) :
    ∀ e : Expr, (e.check state).1.eraseTypes = e.eraseTypes
  | .literal .. => rfl
  | .binary _ left right _ => by
    simp only [Expr.check, Expr.eraseTypes, left.eraseTypes_check, right.eraseTypes_check]
    rfl
  | .unary _ operand _ => by
    simp only [Expr.check, Expr.eraseTypes, operand.eraseTypes_check]
    rfl
  | .symbol .. => rfl
  | .call _ arguments _ => by
    simp only [Expr.check, Expr.eraseTypes, Expr.eraseTypes_checkAll state arguments]
    rfl

theorem Expr.eraseTypes_checkAll (state : State) :
    ∀ exprs : List Expr, Expr.eraseAllTypes (Expr.checkAll state exprs).1 = Expr.eraseAllTypes exprs
  | [] => rfl
  | e :: exprs => by
    simp only [Expr.checkAll, Expr.eraseAllTypes, e.eraseTypes_check, Expr.eraseTypes_checkAll]

end

/-- Every node of an expression is visited, so that nothing of the types before is left. -/
theorem Expr.check_check (state : State) (e : Expr) :
    (e.check state).1.check state = e.check state := by
  rw [← Expr.check_eraseTypes, e.eraseTypes_check, Expr.check_eraseTypes]

section Option

variable (state : State) (value : Option Expr)

theorem Expr.checkOption_eraseTypes :
    Expr.checkOption state (value.map Expr.eraseTypes) = Expr.checkOption state value := by
  cases value with
  | none => rfl
  | some e => simp only [Option.map_some, Expr.checkOption, e.check_eraseTypes]

theorem Expr.eraseTypes_checkOption :
    (Expr.checkOption state value).1.map Expr.eraseTypes = value.map Expr.eraseTypes := by
  cases value with
  | none => rfl
  | some e => simp only [Expr.checkOption, Option.map_some, e.eraseTypes_check]

theorem Expr.checkOption_checkOption :
    Expr.checkOption state (Expr.checkOption state value).1 = Expr.checkOption state value := by
  rw [← Expr.checkOption_eraseTypes, Expr.eraseTypes_checkOption, Expr.checkOption_eraseTypes]

end Option

/-! ## Heads of functions -/

theorem Parameter.checkAll_eraseTypes (parameters : List Parameter) :
    Parameter.checkAll (parameters.map Parameter.eraseTypes) = Parameter.checkAll parameters := by
  induction parameters with
  | nil => rfl
  | cons parameter parameters ih =>
    rw [List.map_cons, Parameter.checkAll, ih]
    rfl

theorem Parameter.eraseTypes_checkAll (parameters : List Parameter) :
    (Parameter.checkAll parameters).1.map Parameter.eraseTypes =
      parameters.map Parameter.eraseTypes := by
  induction parameters with
  | nil => rfl
  | cons parameter parameters ih =>
    simp only [Parameter.checkAll, List.map_cons, ih]
    rfl

namespace Stmt

section Head

variable (state : State) (name : String) (parameters : List Parameter) (returns : TypeName)
  (line : UInt32)

theorem checkHead_eraseTypes :
    checkHead state name (parameters.map Parameter.eraseTypes) returns.eraseTypes line =
      checkHead state name parameters returns line := by
  simp only [checkHead, Parameter.checkAll_eraseTypes]
  rfl

theorem eraseTypes_checkHead :
    (checkHead state name parameters returns line).1.map Parameter.eraseTypes =
        parameters.map Parameter.eraseTypes ∧
      (checkHead state name parameters returns line).2.1.eraseTypes = returns.eraseTypes :=
  ⟨Parameter.eraseTypes_checkAll parameters, rfl⟩

theorem checkHead_checkHead :
    checkHead state name (checkHead state name parameters returns line).1
        (checkHead state name parameters returns line).2.1 line =
      checkHead state name parameters returns line := by
  obtain ⟨hParameters, hReturns⟩ := eraseTypes_checkHead state name parameters returns line
  rw [← checkHead_eraseTypes, hParameters, hReturns, checkHead_eraseTypes]

end Head

/-! ## Declarations and assignments -/

section Declaration

variable (state : State) (name : String) (typeName : TypeName) (value : Option Expr)
  (target : Location) (e : Expr) (info : Info)

theorem checkVar_eraseTypes :
    (checkVar state name typeName.eraseTypes (value.map Expr.eraseTypes) info.eraseTypes).2 =
      (checkVar state name typeName value info).2 := by
  cases hObstacle : state.scopes.obstacle? name with
  | some violation => simp only [checkVar_of_taken _ _ _ hObstacle, Info.eraseTypes]
  | none =>
    simp only [checkVar_of_free _ _ _ hObstacle, Expr.checkOption_eraseTypes]
    rfl

theorem eraseTypes_checkVar :
    (checkVar state name typeName value info).1.eraseTypes =
      (varDecl name typeName value info).eraseTypes := by
  cases hObstacle : state.scopes.obstacle? name with
  | some violation =>
    rw [checkVar_of_taken _ _ _ hObstacle]
    rfl
  | none =>
    rw [checkVar_of_free _ _ _ hObstacle]
    simp only [eraseTypes, Expr.eraseTypes_checkOption]
    rfl

theorem checkConst_eraseTypes :
    (checkConst state name e.eraseTypes info.eraseTypes).2 = (checkConst state name e info).2 := by
  cases hObstacle : state.scopes.obstacle? name with
  | some violation => simp only [checkConst_of_taken _ _ hObstacle, Info.eraseTypes]
  | none =>
    simp only [checkConst_of_free _ _ hObstacle, e.check_eraseTypes]
    rfl

theorem eraseTypes_checkConst :
    (checkConst state name e info).1.eraseTypes = (constDecl name e info).eraseTypes := by
  cases hObstacle : state.scopes.obstacle? name with
  | some violation =>
    rw [checkConst_of_taken _ _ hObstacle]
    rfl
  | none =>
    rw [checkConst_of_free _ _ hObstacle]
    simp only [eraseTypes, e.eraseTypes_check]
    rfl

theorem checkAssign_eraseTypes :
    checkAssign state target.eraseTypes e.eraseTypes info.eraseTypes =
      checkAssign state target e info := by
  simp only [checkAssign, e.check_eraseTypes]
  rfl

theorem eraseTypes_checkAssign :
    (checkAssign state target e info).1.eraseTypes = (assign target e info).eraseTypes := by
  simp only [checkAssign, eraseTypes, e.eraseTypes_check]
  rfl

end Declaration

/-! ## Statements -/

end Stmt

end Jingle.Syntax

namespace Jingle.Typing

/-- What becomes of a part of a program, but for its annotations. -/
def Outcome.course {α : Type} (outcome : Outcome α) : State × Option Returns × List Diagnostic :=
  (outcome.state, outcome.returns, outcome.diagnostics)

theorem Outcome.course_eq_iff {α : Type} {a b : Outcome α} : a.course = b.course ↔
    a.state = b.state ∧ a.returns = b.returns ∧ a.diagnostics = b.diagnostics := by
  simp only [course, Prod.mk.injEq]

end Jingle.Typing

namespace Jingle.Syntax.Stmt

open Typing

mutual

/-- The course of a check does not depend on the types that are found. -/
theorem check_eraseTypes (state : State) (returns : Option Returns) :
    ∀ s : Stmt, (s.eraseTypes.check state returns).course = (s.check state returns).course
  | .varDecl name typeName value info => by
    have h := checkVar_eraseTypes state name typeName value info
    simp only [eraseTypes, check, Outcome.course, h]
  | .constDecl name value info => by
    have h := checkConst_eraseTypes state name value info
    simp only [eraseTypes, check, Outcome.course, h]
  | .echo value _ => by
    simp only [eraseTypes, check, Outcome.course, value.check_eraseTypes]
  | .branch condition ⟨_, thenBody⟩ ⟨_, elseBody⟩ _ => by
    simp only [eraseTypes, check, condition.check_eraseTypes]
    split
    · obtain ⟨hState, hReturns, hThen⟩ :=
        Outcome.course_eq_iff.mp (checkAll_eraseTypes state returns thenBody)
      obtain ⟨hState', hReturns', hElse⟩ :=
        Outcome.course_eq_iff.mp (checkAll_eraseTypes (checkAll state returns thenBody).state
          (checkAll state returns thenBody).returns elseBody)
      simp only [Outcome.course, hState, hReturns, hThen, hState', hReturns', hElse]
    · rfl
  | .loop condition ⟨_, body⟩ _ => by
    simp only [eraseTypes, check, condition.check_eraseTypes]
    split
    · obtain ⟨hState, hReturns, hBody⟩ :=
        Outcome.course_eq_iff.mp (checkAll_eraseTypes state returns body)
      simp only [Outcome.course, hState, hReturns, hBody]
    · rfl
  | .assign target value info => by
    simp only [eraseTypes, check, Outcome.course, checkAssign_eraseTypes]
  | .fnDecl name parameters typeName ⟨_, body⟩ line => by
    simp only [eraseTypes, check, checkHead_eraseTypes]
    obtain ⟨parameters, typeName, diagnostics⟩ := checkHead state name parameters typeName line
    split
    · rfl
    · next inside _ =>
      obtain ⟨hState, hReturns, hBody⟩ := Outcome.course_eq_iff.mp
        (checkAll_eraseTypes inside (some { name, expected := typeName.ty }) body)
      simp only [Outcome.course, hState, hReturns, hBody]
  | .ret value info => by
    simp only [eraseTypes, check, Outcome.course, value.check_eraseTypes]
    rfl

theorem checkAll_eraseTypes (state : State) (returns : Option Returns) :
    ∀ stmts : List Stmt,
      (checkAll state returns (eraseAllTypes stmts)).course = (checkAll state returns stmts).course
  | [] => rfl
  | s :: stmts => by
    obtain ⟨hState, hReturns, hFirst⟩ :=
      Outcome.course_eq_iff.mp (check_eraseTypes state returns s)
    obtain ⟨hState', hReturns', hOthers⟩ :=
      Outcome.course_eq_iff.mp (checkAll_eraseTypes (s.check state returns).state
        (s.check state returns).returns stmts)
    simp only [eraseAllTypes, checkAll, Outcome.course, hState, hReturns, hFirst, hState',
      hReturns', hOthers]

end

mutual

/-- A check changes nothing but types. -/
theorem eraseTypes_check (state : State) (returns : Option Returns) :
    ∀ s : Stmt, (s.check state returns).tree.eraseTypes = s.eraseTypes
  | .varDecl name typeName value info => eraseTypes_checkVar state name typeName value info
  | .constDecl name value info => eraseTypes_checkConst state name value info
  | .echo value _ => by simp only [check, eraseTypes, value.eraseTypes_check]
  | .branch condition ⟨_, thenBody⟩ ⟨_, elseBody⟩ _ => by
    rw [check]
    dsimp only
    split
    · simp only [eraseTypes, condition.eraseTypes_check, eraseTypes_checkAll]
    · simp only [eraseTypes, condition.eraseTypes_check]
  | .loop condition ⟨_, body⟩ _ => by
    rw [check]
    dsimp only
    split
    · simp only [eraseTypes, condition.eraseTypes_check, eraseTypes_checkAll]
    · simp only [eraseTypes, condition.eraseTypes_check]
  | .assign target value info => eraseTypes_checkAssign state target value info
  | .fnDecl name parameters typeName ⟨_, body⟩ line => by
    obtain ⟨hParameters, hReturns⟩ := eraseTypes_checkHead state name parameters typeName line
    rw [check]
    dsimp only
    split
    · simp only [eraseTypes, hParameters, hReturns]
    · simp only [eraseTypes, hParameters, hReturns, eraseTypes_checkAll]
  | .ret value info => by
    simp only [check, eraseTypes, value.eraseTypes_check]
    rfl

theorem eraseTypes_checkAll (state : State) (returns : Option Returns) :
    ∀ stmts : List Stmt, eraseAllTypes (checkAll state returns stmts).tree = eraseAllTypes stmts
  | [] => rfl
  | s :: stmts => by
    simp only [checkAll, eraseAllTypes, eraseTypes_check, eraseTypes_checkAll]

end

theorem checkVar_checkVar (state : State) (name : String) (typeName : TypeName)
    (value : Option Expr) (info : Info) (returns : Option Returns) :
    (checkVar state name typeName value info).1.check state returns =
      (varDecl name typeName value info).check state returns := by
  cases hObstacle : state.scopes.obstacle? name with
  | some violation => simp only [check, checkVar_of_taken _ _ _ hObstacle]
  | none =>
    simp only [check, checkVar_of_free _ _ _ hObstacle, Expr.checkOption_checkOption]
    rfl

theorem checkConst_checkConst (state : State) (name : String) (value : Expr) (info : Info)
    (returns : Option Returns) :
    (checkConst state name value info).1.check state returns =
      (constDecl name value info).check state returns := by
  cases hObstacle : state.scopes.obstacle? name with
  | some violation => simp only [check, checkConst_of_taken _ _ hObstacle]
  | none => simp only [check, checkConst_of_free _ _ hObstacle, value.check_check]

mutual

/-- A check of a checked statement visits the same parts and writes the same types. -/
theorem check_check (state : State) (returns : Option Returns) :
    ∀ s : Stmt, (s.check state returns).tree.check state returns = s.check state returns
  | .varDecl name typeName value info => checkVar_checkVar state name typeName value info returns
  | .constDecl name value info => checkConst_checkConst state name value info returns
  | .echo value _ => by simp only [check, value.check_check]
  | .branch condition ⟨_, thenBody⟩ ⟨_, elseBody⟩ _ => by
    rw [check]
    dsimp only
    split
    · next hBool => simp only [check, condition.check_check, if_pos hBool, checkAll_checkAll]
    · next hBool => simp only [check, condition.check_check, if_neg hBool]
  | .loop condition ⟨_, body⟩ _ => by
    rw [check]
    dsimp only
    split
    · next hBool => simp only [check, condition.check_check, if_pos hBool, checkAll_checkAll]
    · next hBool => simp only [check, condition.check_check, if_neg hBool]
  | .assign target value info => by
    simp only [check, checkAssign, value.check_check]
    rfl
  | .fnDecl name parameters typeName ⟨_, body⟩ line => by
    rw [check]
    dsimp only
    split
    · next violation hEnter => simp only [check, checkHead_checkHead, hEnter]
    · next inside hEnter => simp only [check, checkHead_checkHead, hEnter, checkAll_checkAll]
  | .ret value info => by simp only [check, value.check_check]

theorem checkAll_checkAll (state : State) (returns : Option Returns) :
    ∀ stmts : List Stmt,
      checkAll state returns (checkAll state returns stmts).tree = checkAll state returns stmts
  | [] => rfl
  | s :: stmts => by simp only [checkAll, check_check, checkAll_checkAll]

end

end Jingle.Syntax.Stmt

/-! ## Programs -/

namespace Jingle.Typing.Checker

open Syntax

theorem checkAll_eq (checker : Checker) (returns : Option Returns) (stmts : List Stmt) :
    checker.checkAll returns stmts =
      ((Stmt.checkAll checker.state returns stmts).tree,
        ⟨(Stmt.checkAll checker.state returns stmts).state,
          checker.reported ++ (Stmt.checkAll checker.state returns stmts).diagnostics⟩) := by
  induction stmts generalizing checker returns with
  | nil => simp [checkAll, Stmt.checkAll]
  | cons stmt stmts ih => simp only [checkAll, Stmt.checkAll, ih, List.append_assoc]

/-- A checker adds the diagnostics of a program to those that it has, whatever they are. -/
theorem check_eq (checker : Checker) (block : Block) :
    checker.check block =
      ((block.checkFrom checker.state).tree, ⟨(block.checkFrom checker.state).state,
        checker.reported ++ (block.checkFrom checker.state).diagnostics⟩) := by
  simp only [check, checkAll_eq, Block.checkFrom]

/-- Trees that differ only in their types are checked alike. From any state a checker adds the same
diagnostics to those that it has and ends in the same state. It changes nothing but types, and a
program that has been checked is annotated and reported on in the same way when it is checked
again. -/
theorem check_of_eraseTypes_eq (state : State) {first second : Block}
    (hTypes : first.eraseTypes = second.eraseTypes) :
    (∃ (after : State) (diagnostics : List Diagnostic), ∀ reported : List Diagnostic,
      (check ⟨state, reported⟩ first).2 = ⟨after, reported ++ diagnostics⟩ ∧
        (check ⟨state, reported⟩ second).2 = ⟨after, reported ++ diagnostics⟩) ∧
    (∀ checker : Checker, (checker.check first).1.eraseTypes = first.eraseTypes) ∧
    first.check.1.check = first.check := by
  refine ⟨?_, ?_, ?_⟩
  · have hBodies : Stmt.eraseAllTypes first.body = Stmt.eraseAllTypes second.body :=
      congrArg Block.body hTypes
    have hFirst := Stmt.checkAll_eraseTypes state none first.body
    have hSecond := Stmt.checkAll_eraseTypes state none second.body
    rw [hBodies, hSecond] at hFirst
    obtain ⟨hState, -, hDiagnostics⟩ := Outcome.course_eq_iff.mp hFirst
    refine ⟨(first.checkFrom state).state, (first.checkFrom state).diagnostics, ?_⟩
    intro reported
    rw [check_eq, check_eq]
    refine ⟨rfl, ?_⟩
    simp only [Block.checkFrom, hState, hDiagnostics]
  · intro checker
    rw [check_eq]
    simp only [Block.checkFrom, Block.eraseTypes, Stmt.eraseTypes_checkAll]
  · simp only [Block.check, Block.checkFrom, Stmt.checkAll_checkAll]

/-- The program `if 1 { echo x; }`, with and without types of an earlier check. The block is not
visited, and its types stay. -/
theorem check_of_eraseTypes_eq_branch :
    let program (condition ty : Option Ty) : Block :=
      ⟨1, [.branch (.literal (.integer 1) ⟨1, condition⟩)
        ⟨1, [.echo (.symbol ⟨⟨1, ty⟩, "x"⟩ ⟨1, ty⟩) 1]⟩ ⟨1, []⟩ 1]⟩
    let first := program (some .bool) (some .int)
    let second := program none none
    first.eraseTypes = second.eraseTypes ∧
      (∃ (after : State) (diagnostics : List Diagnostic), ∀ reported : List Diagnostic,
        (check ⟨.initial, reported⟩ first).2 = ⟨after, reported ++ diagnostics⟩ ∧
          (check ⟨.initial, reported⟩ second).2 = ⟨after, reported ++ diagnostics⟩) ∧
      (∀ checker : Checker, (checker.check first).1.eraseTypes = first.eraseTypes) ∧
      first.check.1.check = first.check := by
  intro program first second
  have hTypes : first.eraseTypes = second.eraseTypes := rfl
  exact ⟨hTypes, check_of_eraseTypes_eq .initial hTypes⟩

end Jingle.Typing.Checker

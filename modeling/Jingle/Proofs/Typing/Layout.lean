import Jingle.Proofs.Syntax.Tree
import Jingle.Proofs.Typing.Relabelling

/-!
# Lines are written and not read

To erase the lines of a program is to give the same line to all of its nodes. So programs that
differ only in their lines are checked alike.

* `Diagnostic.eraseLines` erases lines and keeps everything else.
* `Block.check_of_eraseLines_eq` compares two programs that differ only in their lines.
-/

namespace Jingle

/-- The rule that is broken, without the line of an earlier declaration. -/
def Violation.eraseLines : Violation → Violation
  | nameAlreadyDefined name _ => nameAlreadyDefined name 0
  | functionAlreadyDefined name _ => functionAlreadyDefined name 0
  | violation => violation

/-- A diagnostic without its line and that of an earlier declaration. -/
def Diagnostic.eraseLines (diagnostic : Diagnostic) : Diagnostic :=
  ⟨0, diagnostic.violation.eraseLines⟩

namespace Syntax

/-- The same names, and one line for everything. -/
def Relabelling.unlined : Relabelling where
  names := id
  functions := id
  names_injective := fun _ _ h => h
  functions_injective := fun _ _ h => h
  reserved _ := rfl
  lines _ := 0

mutual

theorem Expr.relabel_unlined : ∀ e : Expr, e.relabel .unlined = e.eraseLines
  | .literal .. | .symbol .. => rfl
  | .binary _ left right _ => by
    rw [Expr.relabel, left.relabel_unlined, right.relabel_unlined]
    rfl
  | .unary _ operand _ => by
    rw [Expr.relabel, operand.relabel_unlined]
    rfl
  | .call _ arguments _ => by
    rw [Expr.relabel, Expr.relabelAll_unlined arguments]
    rfl

theorem Expr.relabelAll_unlined :
    ∀ exprs : List Expr, Expr.relabelAll .unlined exprs = Expr.eraseAllLines exprs
  | [] => rfl
  | e :: exprs => by
    rw [Expr.relabelAll, e.relabel_unlined, Expr.relabelAll_unlined exprs]
    rfl

end

mutual

theorem Stmt.relabel_unlined : ∀ s : Stmt, s.relabel .unlined = s.eraseLines
  | .varDecl _ _ none _ => rfl
  | .varDecl _ _ (some value) _ | .constDecl _ value _ | .echo value _ | .assign _ value _
  | .ret value _ => by
    simp only [Stmt.relabel, Stmt.eraseLines, Option.map_some, value.relabel_unlined]
    rfl
  | .branch condition ⟨_, thenBody⟩ ⟨_, elseBody⟩ _ => by
    rw [Stmt.relabel, condition.relabel_unlined, Stmt.relabelAll_unlined thenBody,
      Stmt.relabelAll_unlined elseBody]
    rfl
  | .loop condition ⟨_, body⟩ _ => by
    rw [Stmt.relabel, condition.relabel_unlined, Stmt.relabelAll_unlined body]
    rfl
  | .fnDecl _ _ _ ⟨_, body⟩ _ => by
    rw [Stmt.relabel, Stmt.relabelAll_unlined body]
    rfl

theorem Stmt.relabelAll_unlined :
    ∀ stmts : List Stmt, Stmt.relabelAll .unlined stmts = Stmt.eraseAllLines stmts
  | [] => rfl
  | s :: stmts => by
    rw [Stmt.relabelAll, s.relabel_unlined, Stmt.relabelAll_unlined stmts]
    rfl

end

theorem Block.relabel_unlined (block : Block) : block.relabel .unlined = block.eraseLines :=
  congrArg (Block.mk 0) (Stmt.relabelAll_unlined block.body)

end Syntax

theorem Diagnostic.relabel_unlined (diagnostic : Diagnostic) :
    diagnostic.relabel .unlined = diagnostic.eraseLines := by
  obtain ⟨line, violation⟩ := diagnostic
  cases violation <;> rfl

namespace Syntax

/-- Programs that differ only in their lines get the same types and diagnostics, up to lines. -/
theorem Block.check_of_eraseLines_eq {first second : Block}
    (h : first.eraseLines = second.eraseLines) :
    first.check.1.eraseLines = second.check.1.eraseLines ∧
      first.check.2.map Diagnostic.eraseLines = second.check.2.map Diagnostic.eraseLines := by
  have hErase : ∀ block : Block, block.eraseLines.check =
      (block.check.1.eraseLines, block.check.2.map Diagnostic.eraseLines) := by
    intro block
    have hDiagnostics : Diagnostic.relabel .unlined = Diagnostic.eraseLines :=
      funext Diagnostic.relabel_unlined
    rw [← block.relabel_unlined, block.check_relabel, Block.relabel_unlined, hDiagnostics]
  have hOutcome := (hErase first).symm.trans (h ▸ hErase second)
  exact Prod.mk.inj hOutcome

end Syntax

end Jingle

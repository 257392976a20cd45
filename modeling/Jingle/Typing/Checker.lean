import Jingle.Typing.Statement

/-!
# Checkers

A checker goes through one program after another. Between two programs it keeps what is known and
everything that it has reported.
-/

namespace Jingle.Typing

open Syntax

/-- What is known to a checker, and what it has reported. -/
structure Checker where
  state : State
  reported : List Diagnostic
  deriving DecidableEq, Repr

namespace Checker

/-- Statements one after another, annotated, and the checker after them. Each statement is reported
on before the next one is looked at. -/
def checkAll (checker : Checker) (returns : Option Returns) : List Stmt → List Stmt × Checker
  | [] => ([], checker)
  | stmt :: stmts =>
    let outcome := stmt.check checker.state returns
    let after : Checker := ⟨outcome.state, checker.reported ++ outcome.diagnostics⟩
    let (stmts, last) := after.checkAll outcome.returns stmts
    (outcome.tree :: stmts, last)

/-- A program, annotated, and the checker after it. -/
def check (checker : Checker) (block : Block) : Block × Checker :=
  let (body, last) := checker.checkAll none block.body
  (⟨block.line, body⟩, last)

end Checker

end Jingle.Typing

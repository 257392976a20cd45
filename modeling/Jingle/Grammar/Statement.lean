import Jingle.Grammar.Expression

/-!
# Reading statements

The readers of single constructs are given the readers of the expressions and statements in them
and a number of steps for their loops. `Stmt.reader` ties them together.

* `Block.ofTokens` reads a whole program.
-/

namespace Jingle.Syntax

open Grammar Grammar.Reader

/-- The name of a type. -/
def TypeName.reader : Reader TypeName := do
  let token ← expectFor .identifier "expected a type name"
  return ⟨⟨token.line, none⟩, token.value⟩

/-- A parameter: its name, a colon and the name of its type. -/
def Parameter.reader : Reader Parameter := do
  let token ← expectFor .identifier "expected identifier in parameter list"
  let _ ← expect .colon
  let typeName ← TypeName.reader
  return ⟨⟨token.line, none⟩, token.value, typeName⟩

/-- The statements up to a closing brace, at most as many as there are steps. -/
def Block.readBody (stmt : Reader Stmt) : Nat → Reader (List Stmt)
  | 0 => exhausted
  | steps + 1 => do
    match ← kind with
    | .closeCurly => return []
    | .eof => failFor "expected '\x7d' to close block"
    | _ =>
      let first ← stmt
      let others ← readBody stmt steps
      return first :: others

/-- Statements in braces. -/
def Block.reader (stmt : Reader Stmt) (steps : Nat) : Reader Block := do
  let start ← expect .openCurly
  let body ← Block.readBody stmt steps
  let _ ← expect .closeCurly
  return ⟨start.line, body⟩

namespace Stmt

section Constructs

variable (expr : Power → Reader Expr)

/-- The declaration of a variable. -/
def readVar : Reader Stmt := do
  let start ← next
  let name ← expectFor .identifier "expected identifier during variable declaration"
  let _ ← expectFor .colon "expected ':' and a type in variable declaration"
  let typeName ← TypeName.reader
  let value ←
    if (← kind) = .assign then do
      let _ ← next
      let value ← expr .lowest
      pure (some value)
    else pure none
  let _ ← expect .semicolon
  return .varDecl name.value typeName value ⟨start.line, none⟩

/-- The declaration of a constant. -/
def readConst : Reader Stmt := do
  let start ← next
  let name ← expectFor .identifier "expected identifier during constant declaration"
  let _ ← expectFor .assign "expected rhs in constant definition"
  let value ← expr .lowest
  let _ ← expect .semicolon
  return .constDecl name.value value ⟨start.line, none⟩

/-- A statement of a word and a value, which is made of the value and the line of the word. -/
def readValue (make : Expr → UInt32 → Stmt) : Reader Stmt := do
  let start ← next
  let value ← expr .lowest
  let _ ← expect .semicolon
  return make value start.line

/-- The output of a value. -/
def readEcho : Reader Stmt :=
  readValue expr .echo

/-- The return of a value. -/
def readReturn : Reader Stmt :=
  readValue expr fun value line => .ret value ⟨line, none⟩

/-- An assignment. Nothing else begins with a name. -/
def readAssign : Reader Stmt := do
  if (← nextKind) = .assign then
    let target ← next
    let _ ← next
    let value ← expr .lowest
    let _ ← expect .semicolon
    return .assign ⟨⟨target.line, none⟩, target.value⟩ value ⟨target.line, none⟩
  else
    failFor "expected a statement"

variable (block : Reader Block)

/-- A loop. -/
def readLoop : Reader Stmt := do
  let start ← next
  let condition ← expr .lowest
  let body ← block
  return .loop condition body start.line

/-- A branch. A branch right after `else` is the only statement of the other block, and without
`else` the other block is empty. -/
def readBranch : Nat → Reader Stmt
  | 0 => exhausted
  | steps + 1 => do
    let start ← next
    let condition ← expr .lowest
    let thenBody ← block
    if (← kind) = .elseWord then
      let _ ← next
      if (← kind) = .ifWord then
        let inner ← readBranch steps
        return .branch condition thenBody ⟨inner.line, [inner]⟩ start.line
      else
        let elseBody ← block
        return .branch condition thenBody elseBody start.line
    else
      return .branch condition thenBody ⟨start.line, []⟩ start.line

/-- The declaration of a function. -/
def readFn (steps : Nat) : Reader Stmt := do
  let start ← next
  let name ← expectFor .identifier "expected identifier after 'fn'"
  let parameters ← parenthesised Parameter.reader steps
  let _ ← expectFor .arrow "expected '->' and a return type"
  let returns ← TypeName.reader
  let body ← block
  return .fnDecl name.value parameters returns body start.line

end Constructs

/-- A statement of the given form. -/
def readForm (expr : Power → Reader Expr) (stmt : Reader Stmt) (steps : Nat) :
    StmtForm → Reader Stmt
  | .any => stmt
  | .varDecl => readVar expr
  | .constDecl => readConst expr
  | .echo => readEcho expr
  | .branch => readBranch expr (Block.reader stmt steps) steps
  | .loop => readLoop expr (Block.reader stmt steps)
  | .fnDecl => readFn (Block.reader stmt steps) steps
  | .ret => readReturn expr
  | .assign => readAssign expr

/-- A statement, of the form that the tables give for the current token. -/
def reader (tables : Tables) : Nat → Reader Stmt
  | 0 => exhausted
  | steps + 1 => do
    match tables.stmt? (← kind) with
    | some form => readForm (Expr.reader tables steps) (reader tables steps) steps form
    | none => failFor "expected a statement"

end Stmt

/-- The statements up to the end, at most as many as there are steps. -/
def Block.readAll (stmt : Reader Stmt) : Nat → Reader (List Stmt)
  | 0 => exhausted
  | steps + 1 => do
    if (← kind) = .eof then
      return []
    else
      let first ← stmt
      let others ← readAll stmt steps
      return first :: others

/-- The program that a list of tokens makes. -/
def Block.ofTokens (tokens : List Token) : Except Fault Block :=
  let cursor := Cursor.ofTokens tokens
  let steps := cursor.budget
  match Block.readAll (Stmt.reader .standard steps) steps cursor with
  | .ok body _ => .ok ⟨1, body⟩
  | .error fault _ => .error fault

end Jingle.Syntax

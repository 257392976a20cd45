import Jingle.Fault
import Jingle.Token.Basic

/-!
# Reading tokens one by one

A cursor stands on a token and never moves past the last one. A reader moves the cursor and gives a
result or a fault. The cursor stays where the reader left it also after a fault.
-/

namespace Jingle.Grammar

open Token (Kind)

/-- The token under the cursor and the tokens after it. -/
structure Cursor where
  current : Token
  rest : List Token
  deriving DecidableEq, Repr

namespace Cursor

/-- The cursor at the beginning of a list of tokens. If the list does not end in a token that marks
its end, one is added there. -/
def ofTokens : List Token → Cursor
  | [] => ⟨.endAt 0 1, []⟩
  | token :: tokens =>
    let last := tokens.getLastD token
    if last.kind = .eof then ⟨token, tokens⟩
    else ⟨token, tokens ++ [.endAt last.stop last.line]⟩

/-- The cursor moved to the next token, if there is one. -/
def advance : Cursor → Cursor
  | ⟨_, token :: tokens⟩ => ⟨token, tokens⟩
  | cursor => cursor

/-- The kind of the token under the cursor. -/
def kind (cursor : Cursor) : Kind :=
  cursor.current.kind

/-- The kind of the token after the cursor, or of the last token if the cursor is on it. -/
def nextKind (cursor : Cursor) : Kind :=
  cursor.advance.kind

/-- Whether the cursor is on a token that marks the end. -/
def atEnd (cursor : Cursor) : Bool :=
  cursor.kind = .eof

/-- The fault that the token under the cursor does not belong there. -/
def unexpected (cursor : Cursor) : Fault :=
  ⟨.unexpected cursor.current.value, cursor.current.start⟩

/-- The fault that something else was expected under the cursor. -/
def unexpectedFor (cursor : Cursor) (message : String) : Fault :=
  ⟨.unexpectedFor cursor.current.value message, cursor.current.start⟩

/-- A number of steps that is enough to read what is left under the tables of the language. -/
def budget (cursor : Cursor) : Nat :=
  cursor.rest.length + 4

end Cursor

/-- A reader of tokens. -/
abbrev Reader := EStateM Fault Cursor

namespace Reader

/-- The kind of the token under the cursor. -/
def kind : Reader Kind :=
  fun cursor => .ok cursor.kind cursor

/-- The kind of the token after the cursor, or of the last token if the cursor is on it. -/
def nextKind : Reader Kind :=
  fun cursor => .ok cursor.nextKind cursor

/-- The token under the cursor, which moves to the next one. -/
def next : Reader Token :=
  fun cursor => .ok cursor.current cursor.advance

/-- The fault that something else was expected under the cursor. -/
def failFor {α : Type} (message : String) : Reader α :=
  fun cursor => .error (cursor.unexpectedFor message) cursor

/-- The next token if it is of the given kind, and otherwise a fault that depends on the cursor. -/
def expectOr (kind : Kind) (fault : Cursor → Fault) : Reader Token := fun cursor =>
  if cursor.kind = kind then .ok cursor.current cursor.advance
  else .error (fault cursor) cursor

/-- The next token, which has to be of the given kind. -/
def expect (kind : Kind) : Reader Token :=
  expectOr kind Cursor.unexpected

/-- The next token, which has to be of the given kind, with a message for the fault. -/
def expectFor (kind : Kind) (message : String) : Reader Token :=
  expectOr kind (·.unexpectedFor message)

/-- The end of a reader that has used up its steps. -/
def exhausted {α : Type} : Reader α :=
  fun cursor => .error ⟨.tooDeep, cursor.current.start⟩ cursor

/-- Items with commas between them, at least one and at most as many as there are steps. -/
def commaSeparated {α : Type} (item : Reader α) : Nat → Reader (List α)
  | 0 => exhausted
  | steps + 1 => do
    let first ← item
    if (← kind) = .comma then
      let _ ← next
      let others ← commaSeparated item steps
      return first :: others
    else
      return [first]

/-- Items in parentheses with commas between them. -/
def parenthesised {α : Type} (item : Reader α) (steps : Nat) : Reader (List α) := do
  let _ ← expect .openParen
  let items ← if (← kind) = .closeParen then pure [] else commaSeparated item steps
  let _ ← expect .closeParen
  return items

end Reader

end Jingle.Grammar

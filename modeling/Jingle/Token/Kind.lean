/-!
# Kinds of tokens
-/

namespace Jingle.Token

/-- The kinds of tokens of the language. -/
inductive Kind where
  | eof
  | integer
  | float
  | char
  | string
  | bool
  | identifier
  | openCurly
  | closeCurly
  | openParen
  | closeParen
  | assign
  | equals
  | bang
  | notEquals
  | less
  | lessEquals
  | greater
  | greaterEquals
  | orOr
  | andAnd
  | semicolon
  | colon
  | comma
  | arrow
  | plus
  | dash
  | slash
  | star
  | percent
  | varWord
  | constWord
  | echoWord
  | ifWord
  | elseWord
  | whileWord
  | fnWord
  | returnWord
  deriving DecidableEq, Repr

namespace Kind

/-- All kinds. -/
def all : List Kind :=
  [eof, integer, float, char, string, bool, identifier, openCurly, closeCurly, openParen,
   closeParen, assign, equals, bang, notEquals, less, lessEquals, greater, greaterEquals, orOr,
   andAnd, semicolon, colon, comma, arrow, plus, dash, slash, star, percent, varWord, constWord,
   echoWord, ifWord, elseWord, whileWord, fnWord, returnWord]

/-- The name by which a kind is shown. -/
def name : Kind → String
  | eof => "EOF"
  | integer => "Integer"
  | float => "Float"
  | char => "Char"
  | string => "String"
  | bool => "Bool"
  | identifier => "Identifier"
  | openCurly => "OpenCurly"
  | closeCurly => "CloseCurly"
  | openParen => "OpenParen"
  | closeParen => "CloseParen"
  | assign => "Assignment"
  | equals => "Equals"
  | bang => "Not"
  | notEquals => "NotEquals"
  | less => "Less"
  | lessEquals => "LessEquals"
  | greater => "Greater"
  | greaterEquals => "GreaterEquals"
  | orOr => "Or"
  | andAnd => "And"
  | semicolon => "Semicolon"
  | colon => "Colon"
  | comma => "Comma"
  | arrow => "Arrow"
  | plus => "Plus"
  | dash => "Dash"
  | slash => "Slash"
  | star => "Star"
  | percent => "Percent"
  | varWord => "Var"
  | constWord => "Const"
  | echoWord => "Echo"
  | ifWord => "If"
  | elseWord => "Else"
  | whileWord => "While"
  | fnWord => "Fn"
  | returnWord => "Return"

/-- The kind with the given name. -/
def ofName? (name : String) : Option Kind :=
  all.find? (·.name = name)

/-- The kind of a reserved word. -/
def ofReserved? : String → Option Kind
  | "var" => some varWord
  | "const" => some constWord
  | "echo" => some echoWord
  | "if" => some ifWord
  | "else" => some elseWord
  | "while" => some whileWord
  | "fn" => some fnWord
  | "return" => some returnWord
  | "true" => some bool
  | "false" => some bool
  | _ => none

/-- The kind of a word: an identifier unless the word is reserved. -/
def ofWord (word : String) : Kind :=
  (ofReserved? word).getD identifier

/-- Whether tokens of the kind differ in their values. -/
def hasValue : Kind → Bool
  | identifier | integer | float | char | string | bool => true
  | _ => false

end Kind

end Jingle.Token

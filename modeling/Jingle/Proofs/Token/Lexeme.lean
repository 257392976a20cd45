import Jingle.Token.Basic
import Jingle.Token.Pattern

/-!
# Lexemes

A lexeme is a token without its place: a kind and a value. Every lexeme of a program has a text
from which it can be read back. Literals in quotes are written with backslashes before the
characters that would end or change them.

* `Lexeme.text` writes a lexeme and `Lexeme.join` writes lexemes with single spaces between them.
* `Lexeme.Valid` says which lexemes can be read back.
-/

namespace Jingle.Token

/-- A kind of token and a value. -/
structure Lexeme where
  kind : Kind
  value : String
  deriving DecidableEq, Repr

/-- A token without its place. -/
def lexeme (token : Token) : Lexeme :=
  ⟨token.kind, token.value⟩

/-- The text of the kinds that are always written the same way. -/
def Kind.spelling? : Kind → Option String
  | openCurly => some "\x7b"
  | closeCurly => some "\x7d"
  | openParen => some "("
  | closeParen => some ")"
  | assign => some "="
  | equals => some "=="
  | bang => some "!"
  | notEquals => some "!="
  | less => some "<"
  | lessEquals => some "<="
  | greater => some ">"
  | greaterEquals => some ">="
  | orOr => some "||"
  | andAnd => some "&&"
  | semicolon => some ";"
  | colon => some ":"
  | comma => some ","
  | arrow => some "->"
  | plus => some "+"
  | dash => some "-"
  | slash => some "/"
  | star => some "*"
  | percent => some "%"
  | varWord => some "var"
  | constWord => some "const"
  | echoWord => some "echo"
  | ifWord => some "if"
  | elseWord => some "else"
  | whileWord => some "while"
  | fnWord => some "fn"
  | returnWord => some "return"
  | eof | integer | float | char | string | bool | identifier => none

/-- A character as it stands in a string literal. -/
def stringForm (c : Char) : List Char :=
  if c = '\\' ∨ c = '"' then ['\\', c] else [c]

/-- A character as it stands in a character literal. -/
def charForm (c : Char) : List Char :=
  if c = '\n' then ['\\', 'n'] else if c = '\'' ∨ c = '\\' then ['\\', c] else [c]

/-- A name is a letter or an underscore, then letters, digits and underscores, and no reserved
word. Letters and digits are those of ASCII. -/
def isName (name : String) : Bool :=
  match name.toList with
  | [] => false
  | first :: others =>
    (first.isAlpha || first = '_') && others.all (fun c => c.isAlphanum || c = '_') &&
      (Kind.ofReserved? name).isNone

namespace Lexeme

/-- The lexeme of a kind that is always written the same way. -/
def mark (kind : Kind) : Lexeme :=
  ⟨kind, kind.spelling?.getD ""⟩

/-- The lexeme of a name. -/
def name (name : String) : Lexeme :=
  ⟨.identifier, name⟩

/-- A lexeme as it is written. -/
def text (lexeme : Lexeme) : List Char :=
  match lexeme.kind with
  | .string => '"' :: (lexeme.value.toList.flatMap stringForm ++ ['"'])
  | .char => '\'' :: (lexeme.value.toList.flatMap charForm ++ ['\''])
  | _ => lexeme.value.toList

/-- Lexemes with single spaces between them. -/
def join (lexemes : List Lexeme) : List Char :=
  [' '].intercalate (lexemes.map text)

/-- The lexemes that can be read back. -/
inductive Valid : Lexeme → Prop where
  | mark {kind : Kind} : kind.spelling?.isSome → Valid (mark kind)
  | name {value : String} : isName value → Valid (name value)
  | integer (value : Nat) : Valid ⟨.integer, toString value⟩
  | char (value : Char) : Valid ⟨.char, String.singleton value⟩
  | string (value : String) : Valid ⟨.string, value⟩
  | bool (value : Bool) : Valid ⟨.bool, toString value⟩

theorem Valid.kind_ne_eof {lexeme : Lexeme} (h : lexeme.Valid) : lexeme.kind ≠ .eof := by
  cases h with
  | mark hKind =>
    rintro rfl
    cases hKind
  | _ => exact fun hEof => nomatch hEof

/-- All of the given lexemes can be read back. -/
def AllValid (lexemes : List Lexeme) : Prop :=
  ∀ lexeme ∈ lexemes, lexeme.Valid

@[simp] theorem allValid_nil : AllValid [] := by
  simp [AllValid]

@[simp] theorem allValid_cons {lexeme : Lexeme} {lexemes : List Lexeme} :
    AllValid (lexeme :: lexemes) ↔ lexeme.Valid ∧ AllValid lexemes :=
  List.forall_mem_cons

@[simp] theorem allValid_append {lexemes others : List Lexeme} :
    AllValid (lexemes ++ others) ↔ AllValid lexemes ∧ AllValid others :=
  List.forall_mem_append

end Lexeme

end Jingle.Token

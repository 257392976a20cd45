import Jingle.Text.Blank
import Jingle.Text.Digit
import Jingle.Token.Kind

/-!
# Patterns of tokens

A pattern looks at the beginning of a text and says how many characters of it form a piece of its
own. The patterns of the language stand in a table, and the first one that matches decides.

* `Pattern.first?` gives the number of characters of the next piece of a text, and what the piece
  is.
-/

namespace Jingle.Token

open Text

/-- A shape gives the number of characters that it takes from the beginning of a text, if the text
begins with it. -/
abbrev Shape := List Char → Option Nat

namespace Shape

/-- One character of a class. -/
def one (p : Char → Bool) : Shape
  | [] => none
  | c :: _ => if p c then some 1 else none

/-- As many characters of a class as there are. -/
def many (p : Char → Bool) : Shape :=
  fun text => some (text.takeWhile p).length

/-- The given characters. -/
def exactly (word : List Char) : Shape :=
  fun text => if word.isPrefixOf text then some word.length else none

/-- One shape after another. -/
def andThen (first second : Shape) : Shape := fun text =>
  (first text).bind fun n => (second (text.drop n)).map (n + ·)

/-- The first of two shapes that matches. -/
def orElse (first second : Shape) : Shape := fun text =>
  (first text).or (second text)

/-- A shape, or nothing where it does not match. -/
def optional (shape : Shape) : Shape :=
  shape.orElse fun _ => some 0

/-- At least one character of a class, and as many as there are. -/
def run (p : Char → Bool) : Shape :=
  (one p).andThen (many p)

end Shape

/-! ## Shapes of the language -/

/-- The rest of a comment up to the first star that a slash follows. -/
def commentRest : Shape
  | [] => none
  | '*' :: '/' :: _ => some 2
  | _ :: text => (commentRest text).map (· + 1)

/-- A comment between a slash with a star and a star with a slash. -/
def blockComment : Shape :=
  (Shape.exactly ['/', '*']).andThen commentRest

/-- A comment from two slashes to the end of the line. -/
def lineComment : Shape :=
  (Shape.exactly ['/', '/']).andThen (Shape.many (· ≠ '\n'))

/-- The exponent of a float. -/
def exponent : Shape :=
  (Shape.one fun c => c = 'e' ∨ c = 'E').andThen
    ((Shape.optional (Shape.one fun c => c = '+' ∨ c = '-')).andThen (Shape.run isDigit))

/-- A float: digits around a point with an optional exponent, or digits with an exponent. -/
def float : Shape :=
  let point := Shape.one (· = '.')
  let pointed := ((Shape.run isDigit).andThen (point.andThen (Shape.many isDigit))).orElse
    (point.andThen (Shape.run isDigit))
  (pointed.andThen exponent.optional).orElse ((Shape.run isDigit).andThen exponent)

/-- The digits of a radix after a zero and the letter of the radix in either case. -/
def inRadix (lower upper : Char) (radix : Nat) : Shape :=
  (Shape.one (· = '0')).andThen
    ((Shape.one fun c => c = lower ∨ c = upper).andThen (Shape.run (isDigitOf radix)))

/-- An integer: digits of radix 16, 2 or 8 after their mark, or decimal digits. -/
def integer : Shape :=
  (inRadix 'x' 'X' 16).orElse
    ((inRadix 'b' 'B' 2).orElse ((inRadix 'o' 'O' 8).orElse (Shape.run isDigit)))

/-- The body of a character literal: an escape or one character other than a quote, a backslash or
a line feed. -/
def charBody : Shape :=
  let hex := Shape.one (isDigitOf 16)
  ((Shape.exactly ['\\', 'x']).andThen (hex.andThen hex)).orElse
    (((Shape.one (· = '\\')).andThen (Shape.one (· ≠ '\n'))).orElse
      (Shape.one fun c => c ≠ '\'' ∧ c ≠ '\\' ∧ c ≠ '\n'))

/-- A character literal. -/
def charLiteral : Shape :=
  let quote := Shape.one (· = '\'')
  quote.andThen (charBody.andThen quote)

/-- The rest of a string literal up to its closing quote. A backslash takes the next character with
it, which is not a line feed. -/
def stringRest : Shape
  | [] => none
  | '"' :: _ => some 1
  | ['\\'] => none
  | '\\' :: c :: text => if c = '\n' then none else (stringRest text).map (· + 2)
  | _ :: text => (stringRest text).map (· + 1)

/-- A string literal. -/
def stringLiteral : Shape :=
  (Shape.one (· = '"')).andThen stringRest

/-- Whether a character begins a word: an ASCII letter or an underscore. -/
def isWordStart (c : Char) : Bool :=
  c.isAlpha || c = '_'

/-- Whether a character continues a word: an ASCII letter or digit or an underscore. -/
def isWordPart (c : Char) : Bool :=
  c.isAlphanum || c = '_'

/-- A word: an identifier or a reserved word. -/
def word : Shape :=
  (Shape.one isWordStart).andThen (Shape.many isWordPart)

/-! ## The table -/

/-- What becomes of a piece of text that a pattern matches. -/
inductive Role where
  /-- The piece is left out. -/
  | gap
  /-- The piece is a token of the kind, with itself as its value. -/
  | plain (kind : Kind)
  /-- The piece is a literal in quotes, and its value is what the body denotes. -/
  | quoted (kind : Kind)
  /-- The piece is a word, and reserved words have kinds of their own. -/
  | word
  deriving DecidableEq, Repr

/-- A shape and what becomes of the pieces of that shape. -/
structure Pattern where
  shape : Shape
  role : Role

namespace Pattern

/-- The pattern of a token that is always written the same way. -/
def fixed (text : String) (kind : Kind) : Pattern :=
  ⟨Shape.exactly text.toList, .plain kind⟩

/-- The patterns of the language, in the order in which they are tried. -/
def table : List Pattern :=
  [⟨Shape.run isBlank, .gap⟩,
   ⟨blockComment, .gap⟩,
   ⟨lineComment, .gap⟩,
   ⟨float, .plain .float⟩,
   ⟨integer, .plain .integer⟩,
   ⟨charLiteral, .quoted .char⟩,
   ⟨stringLiteral, .quoted .string⟩,
   ⟨Token.word, .word⟩,
   fixed "\x7b" .openCurly,
   fixed "\x7d" .closeCurly,
   fixed "(" .openParen,
   fixed ")" .closeParen,
   fixed "==" .equals,
   fixed "!=" .notEquals,
   fixed "!" .bang,
   fixed "=" .assign,
   fixed "<=" .lessEquals,
   fixed "<" .less,
   fixed ">=" .greaterEquals,
   fixed ">" .greater,
   fixed "||" .orOr,
   fixed "&&" .andAnd,
   fixed ";" .semicolon,
   fixed ":" .colon,
   fixed "," .comma,
   fixed "->" .arrow,
   fixed "+" .plus,
   fixed "-" .dash,
   fixed "/" .slash,
   fixed "*" .star,
   fixed "%" .percent]

/-- The number of characters of the next piece of a text and its role, by the first of the patterns
that matches. -/
def first? (patterns : List Pattern) (text : List Char) : Option (Nat × Role) :=
  patterns.findSome? fun pattern => (pattern.shape text).map fun n => (n, pattern.role)

end Pattern

end Jingle.Token

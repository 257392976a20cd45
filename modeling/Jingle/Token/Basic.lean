import Jingle.Text.Mark
import Jingle.Token.Kind

/-!
# Tokens

A token is a piece of source text with its kind, its value and its place. The value of a character
or string token is what the literal denotes. For all other kinds it is the piece of text itself.
-/

namespace Jingle

/-- A token of the language. -/
structure Token where
  kind : Token.Kind
  value : String
  /-- The byte offsets of the beginning and the end of the token. -/
  start : UInt32
  stop : UInt32
  /-- The line on which the token begins, counted from one. -/
  line : UInt32
  deriving DecidableEq, Repr

namespace Token

/-- The token that a piece of text makes at a place. -/
def ofText (mark : Text.Mark) (kind : Kind) (value : String) (text : List Char) : Token :=
  ⟨kind, value, mark.offset, (mark.advance text).offset, mark.line⟩

/-- The token that ends a source, at an offset and on a line. -/
def endAt (offset line : UInt32) : Token :=
  ⟨.eof, "EOF", offset, offset, line⟩

/-- A token as a record of its kind and value. -/
def describe (token : Token) : String :=
  s!"Token \x7b\nkind: {token.kind.name},\nvalue: {token.value}\x7d"

/-- A token as a line of a token listing. -/
def listing (token : Token) : String :=
  let value := if token.kind.hasValue then token.value else ""
  s!"{token.line}: {token.kind.name} ({value})"

end Token

end Jingle

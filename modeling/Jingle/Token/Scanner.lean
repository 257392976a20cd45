import Jingle.Token.Basic

/-!
# Moving through a source by hand

A scanner holds a source, a place and the tokens made so far. It is moved by the pieces of text that
it is told to pass, whether or not the source has them there, so that its place can also lie behind
the end of the source or inside of a character.
-/

namespace Jingle.Token

open Text

/-- A source, a place in it and the tokens before that place. -/
structure Scanner where
  source : String
  mark : Mark := .start
  tokens : List Token := []
  deriving Repr

namespace Scanner

/-- The scanner after a piece of text. -/
def advance (scanner : Scanner) (text : String) : Scanner :=
  { scanner with mark := scanner.mark.advance text.toList }

/-- The scanner after a token with the given text. -/
def push (scanner : Scanner) (kind : Kind) (value text : String) : Scanner :=
  let token := ofText scanner.mark kind value text.toList
  { scanner.advance text with tokens := scanner.tokens ++ [token] }

/-- The characters from a byte offset on, if the offset is at the beginning of a character or at
the end. -/
def dropBytes? : Nat → List Char → Option (List Char)
  | 0, text => some text
  | _ + 1, [] => none
  | bytes + 1, c :: text =>
    if c.utf8Size ≤ bytes + 1 then dropBytes? (bytes + 1 - c.utf8Size) text else none

/-- The source from the place on. -/
def remainder? (scanner : Scanner) : Option String :=
  (dropBytes? scanner.mark.bytes scanner.source.toList).map String.ofList

/-- The character at the place. At the end of the source it is the null character. -/
def current? (scanner : Scanner) : Option Char :=
  (dropBytes? scanner.mark.bytes scanner.source.toList).map fun text => text.headD '\x00'

/-- Whether nothing of the source is left. -/
def atEnd (scanner : Scanner) : Bool :=
  scanner.source.utf8ByteSize ≤ scanner.mark.bytes

end Scanner

end Jingle.Token

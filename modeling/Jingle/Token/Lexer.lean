import Jingle.Fault
import Jingle.Token.Basic
import Jingle.Token.Escape
import Jingle.Token.Pattern

/-!
# From text to tokens

A source is cut into pieces from its beginning to its end. Each piece is the one that the first
matching pattern takes from the rest of the text.

* `tokenize` gives the tokens of a source, the last of which marks its end, or the fault at the
  first place where no pattern matches.
-/

namespace Jingle.Token

open Text

/-- The token that a piece of text is, unless it is left out. -/
def ofPiece? (mark : Mark) (text : List Char) : Role → Option Token
  | .gap => none
  | .plain kind => some (ofText mark kind (String.ofList text) text)
  | .quoted kind =>
    let body := (text.drop 1).dropLast
    some (ofText mark kind (String.ofList (unescape body)) text)
  | .word =>
    let word := String.ofList text
    some (ofText mark (Kind.ofWord word) word text)

/-- The tokens of a text at a place. The first `skipped` characters of the text belong to a piece
that has already been taken, and the place is the one after that piece. -/
def scan (skipped : Nat) (mark : Mark) : List Char → Except Fault (List Token)
  | [] => .ok [endAt mark.offset mark.line]
  | c :: text =>
    match skipped with
    | rest + 1 => scan rest mark text
    | 0 =>
      match Pattern.first? Pattern.table (c :: text) with
      | none => .error ⟨.unrecognised (String.singleton c), mark.offset⟩
      | some (count, role) => do
        let piece := (c :: text).take count
        let tokens ← scan (count - 1) (mark.advance piece) text
        return (ofPiece? mark piece role).toList ++ tokens

/-- The tokens of a source. -/
def tokenize (source : String) : Except Fault (List Token) :=
  scan 0 .start source.toList

end Jingle.Token

import Jingle.Text.Digit

/-!
# Escapes in character and string literals

A backslash gives the character after it another meaning. After `\x` follow one or two hexadecimal
digits of a code below 256. A backslash that gives no such meaning stands for itself.
-/

namespace Jingle.Token

open Text

/-- The character that a backslash and the given character denote together. -/
def escapeOf? : Char → Option Char
  | 'n' => some '\n'
  | 't' => some '\t'
  | 'r' => some '\r'
  | '0' => some '\x00'
  | '\\' => some '\\'
  | '"' => some '"'
  | '\'' => some '\''
  | _ => none

/-- The text that the body of a character or string literal denotes. -/
def unescape : List Char → List Char
  | [] => []
  | '\\' :: 'x' :: a :: b :: text =>
    match digitOf? 16 a, digitOf? 16 b with
    | some high, some low => Char.ofNat (16 * high + low) :: unescape text
    | some code, none => Char.ofNat code :: unescape (b :: text)
    | none, _ => '\\' :: 'x' :: unescape (a :: b :: text)
  | ['\\', 'x', a] =>
    match digitOf? 16 a with
    | some code => [Char.ofNat code]
    | none => '\\' :: 'x' :: unescape [a]
  | '\\' :: c :: text =>
    match escapeOf? c with
    | some d => d :: unescape text
    | none => '\\' :: unescape (c :: text)
  | c :: text => c :: unescape text

end Jingle.Token

import Jingle.Text.Mark

/-!
# Lines of a text

A line reaches up to and includes the line feed that ends it. The last line may lack one, and a
text that is empty or ends in a line feed has no empty line after it.
-/

namespace Jingle.Text

/-- The lines of a text after the characters `before`, which are given last one first and belong to
the first line. -/
def linesAfter (before : List Char) : List Char → List (List Char)
  | [] => if before.isEmpty then [] else [before.reverse]
  | c :: text =>
    if c = '\n' then (c :: before).reverse :: linesAfter [] text
    else linesAfter (c :: before) text

/-- The lines of a text, each with its line feed. -/
def lines (text : List Char) : List (List Char) :=
  linesAfter [] text

/-- A line without its line feed and without a carriage return before that. -/
def withoutBreak (line : List Char) : List Char :=
  match line.reverse with
  | '\n' :: '\r' :: front => front.reverse
  | '\n' :: front => front.reverse
  | _ => line

/-- The line with the given number, counted from one, without its line break. -/
def line? (text : List Char) (number : Nat) : Option (List Char) :=
  match number with
  | 0 => none
  | index + 1 => (lines text)[index]?.map withoutBreak

/-- A line of a text and a byte column in it. -/
structure Column where
  /-- The number of the line, counted from one. -/
  number : Nat
  /-- The line with its line feed. -/
  line : List Char
  /-- The number of bytes of the line before the column. -/
  column : Nat
  deriving DecidableEq, Repr

/-- The column at an offset from the beginning of the given lines, which are counted from `number`.
Only the last line has a column after its last character. -/
def columnIn? (number offset : Nat) : List (List Char) → Option Column
  | [] => none
  | [line] => if offset ≤ byteLength line then some ⟨number, line, offset⟩ else none
  | line :: lines =>
    if offset < byteLength line then some ⟨number, line, offset⟩
    else columnIn? (number + 1) (offset - byteLength line) lines

/-- The line and column of a byte offset. The end of a text belongs to its last line. -/
def column? (text : List Char) (offset : Nat) : Option Column :=
  columnIn? 1 offset (lines text)

end Jingle.Text

/-!
# Places in a text

A place is the number of bytes before it together with its line. It moves over a piece of text by
the bytes of that piece, and its line by the line breaks of that piece, whatever the text around
it is. Offsets and lines that are handed on are 32 bits wide.
-/

namespace Jingle.Text

/-- The number of bytes of a text in UTF-8. -/
def byteLength (text : List Char) : Nat :=
  text.foldr (fun c bytes => c.utf8Size + bytes) 0

/-- A place in a text. -/
structure Mark where
  /-- The number of bytes before the place. -/
  bytes : Nat
  /-- The line of the place, counted from one. -/
  line : UInt32
  deriving DecidableEq, Repr

namespace Mark

/-- The beginning of a text. -/
def start : Mark :=
  ⟨0, 1⟩

/-- The byte offset of the place. -/
def offset (mark : Mark) : UInt32 :=
  mark.bytes.toUInt32

/-- The place after a piece of text. -/
def advance (mark : Mark) (text : List Char) : Mark :=
  ⟨mark.bytes + byteLength text, mark.line + (text.count '\n').toUInt32⟩

end Mark

end Jingle.Text

import Jingle.Text.Concealed

/-!
# Quoted text

A quoted text stands between quotes on one line. Line breaks, tabs, the null character, backslashes
and the surrounding quote are written with a backslash, and concealed characters by their code in
braces. Everything else stands for itself.
-/

namespace Jingle.Text

/-- The code of a character in lower case hexadecimal, as it stands in quoted text. -/
def codeForm (c : Char) : List Char :=
  ['\\', 'u', '\x7b'] ++ Nat.toDigits 16 c.toNat ++ ['\x7d']

/-- The form of one character between two quotes. -/
def quotedForm (quote c : Char) : List Char :=
  if c = '\x00' then ['\\', '0']
  else if c = '\t' then ['\\', 't']
  else if c = '\r' then ['\\', 'r']
  else if c = '\n' then ['\\', 'n']
  else if c = '\\' ∨ c = quote then ['\\', c]
  else if isConcealed c then codeForm c
  else [c]

/-- A text between double quotes. -/
def quoted (text : String) : String :=
  String.ofList ('"' :: text.toList.flatMap (quotedForm '"') ++ ['"'])

/-- A character between single quotes. -/
def quotedChar (c : Char) : String :=
  String.ofList ('\'' :: quotedForm '\'' c ++ ['\''])

end Jingle.Text

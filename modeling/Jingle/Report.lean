import Jingle.Diagnostic
import Jingle.Fault
import Jingle.Text.Blank
import Jingle.Text.Line

/-!
# Reports

Faults and diagnostics are shown with the line of the source that they are about. Below the line of
a fault an arrow of one dash for each byte before the place of the fault points to that place.

* `Fault.report?` may fail: a program that is about to draw too wide an arrow stops.
-/

namespace Jingle

open Text

namespace Report

/-- The name that stands for the file of a source that comes from no file. -/
def unnamed : String :=
  "shell"

/-- The line above an excerpt: a bar below which the bar after the line number stands. -/
def bar (number : String) : String :=
  String.ofList (List.replicate (number.length + 1) ' ' ++ ['|'])

/-- A line of the source with its number. -/
def excerpt (number : String) (line : List Char) : String :=
  s!"{bar number}\n{number} | {String.ofList (trim line)}\n"

/-- Whether a character indents a line. -/
def isIndent (c : Char) : Bool :=
  c = ' ' || c = '\t'

/-- The number of dashes in an arrow to a byte column of a line that is shown without its
indentation. -/
def dashes (line : List Char) (column : Nat) : Nat :=
  column - (line.takeWhile isIndent).length

/-- The width of the widest arrow that can be drawn, with its head. -/
def widest : Nat :=
  65535

/-- An arrow to a byte column of a line, unless it is too wide. -/
def arrow? (line : List Char) (column : Nat) : Option String :=
  let count := dashes line column
  if count + 1 ≤ widest then some (String.ofList (List.replicate count '-' ++ ['^'])) else none

end Report

/-- What stands above the line that a fault is shown with. -/
def Fault.title (fault : Fault) (file : String) : String :=
  match fault.cause.tip? with
  | some tip => s!"Error: {fault.cause.name} ({tip})\n-> {file}\n"
  | none => s!"Error: {fault.cause.name}\n-> {file}\n"

/-- A fault as it is shown for a source in a file, if its arrow can be drawn. -/
def Fault.report? (fault : Fault) (file source : String) : Option String :=
  match column? source.toList fault.offset.toNat with
  | none => some (fault.title file)
  | some place => do
    let number := toString place.number
    let arrow ← Report.arrow? place.line place.column
    return fault.title file ++ Report.excerpt number place.line ++ s!"{Report.bar number} {arrow}\n"

/-- What stands above the line that a diagnostic is shown with. -/
def Diagnostic.title (diagnostic : Diagnostic) (file : String) : String :=
  s!"Error: {diagnostic.message}\n-> {file}\n"

/-- A diagnostic as it is shown for a source in a file. -/
def Diagnostic.report (diagnostic : Diagnostic) (file source : String) : String :=
  match line? source.toList diagnostic.line.toNat with
  | none => diagnostic.title file
  | some line => diagnostic.title file ++ Report.excerpt (toString diagnostic.line) line

end Jingle

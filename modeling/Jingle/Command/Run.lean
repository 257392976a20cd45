import Jingle.Command.Arguments
import Jingle.Program
import Jingle.Report
import Jingle.Syntax.Outline

/-!
# The command

The command checks the program in a file. It writes what it is asked to list to its output, and
faults and diagnostics to its error output. It succeeds if there are none. A report that cannot be
written stops it.
-/

namespace Jingle.Command

open Syntax

/-- Why a file cannot be read as text. -/
inductive ReadFailure where
  | notFound
  | notDirectory
  | isDirectory
  | denied
  | notText
  /-- Any other reason, in the words of the system. -/
  | other (reason : String)
  deriving DecidableEq, Repr

/-- A reason in words. -/
def ReadFailure.message : ReadFailure → String
  | notFound => "No such file or directory (os error 2)"
  | notDirectory => "Not a directory (os error 20)"
  | isDirectory => "Is a directory (os error 21)"
  | denied => "Permission denied (os error 13)"
  | notText => "stream did not contain valid UTF-8"
  | other reason => reason

/-- The text that the bytes of a file are in UTF-8. -/
def decode (bytes : ByteArray) : Except ReadFailure String :=
  match String.fromUTF8? bytes with
  | some text => .ok text
  | none => .error .notText

/-- How a command ends. -/
inductive Ending where
  /-- It exits with a status, having written a text to its error output. -/
  | exit (status : UInt32) (stderr : String)
  /-- It stops in the middle of a report. What its error output says then is not its own. -/
  | stopped
  deriving DecidableEq, Repr

/-- The status that is seen from outside. -/
def Ending.status : Ending → UInt32
  | exit status _ => status
  | stopped => 101

/-- The ending with the report of a fault, if there is one. -/
def Ending.ofReport : Option String → Ending
  | some report => .exit 1 report
  | none => .stopped

/-- What a command leaves behind. -/
structure Output where
  stdout : String
  ending : Ending
  deriving DecidableEq, Repr

/-- Lines one after another, each with its line feed. -/
def unlines (lines : List String) : String :=
  String.join (lines.map (· ++ "\n"))

/-- The listing of the tokens of a source. -/
def tokenListing (tokens : List Token) : String :=
  unlines (tokens.map Token.listing)

/-- A line of the listing of the nodes of a program. -/
def nodeLine (entry : Nat × Node) : String :=
  let (depth, node) := entry
  let indent := String.ofList (List.replicate (4 * depth) ' ')
  let ty := (node.ty.map Ty.name).getD "None"
  s!"{node.line}: {indent}{node.label} type: {ty}"

/-- The listing of the nodes of a program. -/
def typeListing (block : Block) : String :=
  unlines (block.outline.map nodeLine)

/-- The reports of the diagnostics of a source and their number, or nothing if there are none. -/
def summary (diagnostics : List Diagnostic) (file source : String) : String :=
  if diagnostics.isEmpty then ""
  else
    String.join (diagnostics.map (·.report file source)) ++
      s!"{diagnostics.length} error(s) found\n"

/-- The output of the command for the source in the file. -/
def check (options : Options) (source : String) : Output :=
  match Token.tokenize source with
  | .error fault => ⟨"", .ofReport (fault.report? options.file source)⟩
  | .ok tokens =>
    let listing := if options.tokens then tokenListing tokens else ""
    match Block.ofTokens tokens with
    | .error fault => ⟨listing, .ofReport (fault.report? options.file source)⟩
    | .ok block =>
      let (block, diagnostics) := block.check
      let types := if options.showTypes then typeListing block else ""
      let status := if diagnostics.isEmpty then 0 else 1
      ⟨listing ++ types, .exit status (summary diagnostics options.file source)⟩

/-- The version of the command. -/
def version : String :=
  "jingle 0.1.0\n"

/-- How the command is used. -/
def usage : String :=
  "Usage: jingle [OPTIONS] <FILE>\n"

/-- What the command and its arguments do. -/
def help : String :=
  "Check a Jingle source file for semantic errors\n\n" ++ usage ++
  "\nArguments:\n  <FILE>  Source file to check\n\nOptions:\n" ++
  "      --show-types  Print every node of the checked tree with its resolved type\n" ++
  "      --tokens      Print the token stream before parsing\n" ++
  "  -h, --help        Print help\n" ++
  "  -V, --version     Print version\n"

/-- The output of the command, given its arguments and the contents of files. -/
def run {m : Type → Type} [Monad m] (read : String → m (Except ReadFailure String))
    (arguments : List String) : m Output := do
  match Request.ofArguments arguments with
  | .version => return ⟨version, .exit 0 ""⟩
  | .help => return ⟨help, .exit 0 ""⟩
  | .misuse => return ⟨"", .exit 2 usage⟩
  | .check options =>
    match ← read options.file with
    | .error failure =>
      return ⟨"", .exit 1 s!"Error: failed to read {options.file}: {failure.message}\n"⟩
    | .ok source => return check options source

end Jingle.Command

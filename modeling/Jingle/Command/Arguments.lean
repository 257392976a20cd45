/-!
# Arguments of the command line

The command takes one file and two switches, each at most once and in any order. After `--` no
argument is a switch. The arguments are read from left to right, and the first one that is wrong, or
that asks for the version or for help, ends the reading.
-/

namespace Jingle.Command

/-- What the command is asked to do with a file. -/
structure Options where
  file : String
  showTypes : Bool
  tokens : Bool
  deriving DecidableEq, Repr

/-- What the arguments ask for. -/
inductive Request where
  | check (options : Options)
  | version
  | help
  /-- The arguments are not understood. -/
  | misuse
  deriving DecidableEq, Repr

/-- The arguments that have been read so far. -/
structure Pending where
  file? : Option String := none
  showTypes : Bool := false
  tokens : Bool := false

namespace Pending

/-- The request when all arguments have been read. -/
def finish (pending : Pending) : Request :=
  match pending.file? with
  | some file => .check ⟨file, pending.showTypes, pending.tokens⟩
  | none => .misuse

/-- One more argument that is not a switch: a file, which is not empty and the only one. -/
def addFile (pending : Pending) (argument : String) : Except Request Pending :=
  if argument.isEmpty ∨ pending.file?.isSome then .error .misuse
  else .ok { pending with file? := some argument }

/-- One more argument that begins with a dash and is longer than that. Of letters after a single
dash the first decides. -/
def addSwitch (pending : Pending) (argument : String) : Except Request Pending :=
  match argument with
  | "--show-types" =>
    if pending.showTypes then .error .misuse else .ok { pending with showTypes := true }
  | "--tokens" => if pending.tokens then .error .misuse else .ok { pending with tokens := true }
  | "--version" => .error .version
  | "--help" => .error .help
  | _ =>
    match argument.toList with
    | '-' :: 'V' :: _ => .error .version
    | '-' :: 'h' :: _ => .error .help
    | _ => .error .misuse

/-- Whether an argument is a switch, known or not. A dash alone is a file. -/
def isSwitch (argument : String) : Bool :=
  match argument.toList with
  | '-' :: _ :: _ => true
  | _ => false

/-- The request of the arguments after those read so far, none of which is a switch. -/
def readFiles (pending : Pending) : List String → Request
  | [] => pending.finish
  | argument :: arguments =>
    match pending.addFile argument with
    | .ok pending => readFiles pending arguments
    | .error request => request

/-- The request of the arguments after those read so far. -/
def read (pending : Pending) : List String → Request
  | [] => pending.finish
  | "--" :: arguments => pending.readFiles arguments
  | argument :: arguments =>
    match if isSwitch argument then pending.addSwitch argument else pending.addFile argument with
    | .ok pending => read pending arguments
    | .error request => request

end Pending

/-- The request of the arguments of a command. -/
def Request.ofArguments (arguments : List String) : Request :=
  Pending.read {} arguments

end Jingle.Command

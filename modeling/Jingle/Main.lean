import Jingle.Command.Run

/-!
# The program

The command with the arguments, the files and the streams of the system.
-/

open Jingle.Command

/-- Why the system does not read a file. The system gives the code of a directory with either
sign. -/
def Jingle.Command.ReadFailure.ofError : IO.Error → ReadFailure
  | .noFileOrDirectory .. => notFound
  | .permissionDenied .. => denied
  | .inappropriateType _ code _ =>
    if code = 21 ∨ code + 21 = 0 then isDirectory else notDirectory
  | error => other (toString error)

/-- The contents of a file of the system. -/
def Jingle.Command.readSource (file : String) : IO (Except ReadFailure String) := do
  try
    return decode (← IO.FS.readBinFile file)
  catch error =>
    return .error (.ofError error)

/-- The command line. -/
def main (arguments : List String) : IO UInt32 := do
  let output ← run readSource arguments
  let stdout ← IO.getStdout
  let stderr ← IO.getStderr
  stdout.putStr output.stdout
  stdout.flush
  match output.ending with
  | .exit _ text => stderr.putStr text
  | .stopped => stderr.putStr "jingle: the arrow of a report is too wide\n"
  return output.ending.status

import Jingle.Text.Quoted

/-!
# Faults

A fault stops the reading of a source: a piece of it is no token, or a token stands where the
grammar does not allow it.
-/

namespace Jingle

/-- What is wrong where the reading of a source stops. -/
inductive Fault.Cause where
  /-- No token begins with the given character. -/
  | unrecognised (token : String)
  /-- The token does not belong here. -/
  | unexpected (token : String)
  /-- The token does not belong here, and something else was expected. -/
  | unexpectedFor (token message : String)
  /-- The token denotes no number. -/
  | badNumber (token : String)
  /-- The token denotes no single character. -/
  | badChar (token : String)
  /-- The constructs are nested more deeply than the reader follows them. -/
  | tooDeep
  deriving DecidableEq, Repr

namespace Fault.Cause

/-- The name of a cause. -/
def name : Cause → String
  | unrecognised _ => "UnrecognisedToken"
  | unexpected _ => "UnexpectedToken"
  | unexpectedFor .. => "UnexpectedTokenDetailed"
  | badNumber _ => "NumberParseError"
  | badChar _ => "InvalidCharLiteral"
  | tooDeep => "NestingTooDeep"

/-- What a cause says to a reader of the program's own log. -/
def message : Cause → String
  | unrecognised token => s!"unrecognised token: {Text.quoted token}"
  | unexpected token => s!"unexpected token: {Text.quoted token}"
  | unexpectedFor token message =>
    s!"unexpected token ({Text.quoted message}): {Text.quoted token}"
  | badNumber token => s!"error parsing number: {Text.quoted token}"
  | badChar token => s!"invalid character literal: {Text.quoted token}"
  | tooDeep => "nesting too deep"

/-- What a cause says to the writer of the source, if there is more to say than its name. -/
def tip? : Cause → Option String
  | unrecognised _ => none
  | unexpected token => some s!"Unexpected token: `{token}`, did you miss a semicolon?"
  | unexpectedFor token message => some s!"Unexpected token: `{token}`, {message}"
  | badNumber token => some s!"Invalid number: `{token}`, is it above the integer limit?"
  | badChar token =>
    some s!"Invalid character literal: `{token}`, a char holds exactly one character"
  | tooDeep => none

end Fault.Cause

/-- A cause and the byte offset at which the reading of the source stops. -/
structure Fault where
  cause : Fault.Cause
  offset : UInt32
  deriving DecidableEq, Repr

namespace Fault

/-- A fault in one sentence, with the name of the file in which it was found. -/
def message (fault : Fault) (file : String) : String :=
  s!"{fault.cause.message} at offset {fault.offset} in {file}"

end Fault

end Jingle

import Jingle.Grammar.Statement
import Jingle.Token.Lexer
import Jingle.Typing.Statement

/-!
# Programs

A source is cut into tokens, the tokens are read as a program, and the program is checked. The
first two steps may stop at a fault, and the last one never does.
-/

namespace Jingle

open Syntax

/-- The program that a source makes. -/
def parseSource (source : String) : Except Fault Block :=
  (Token.tokenize source).bind Block.ofTokens

/-- The program that a source makes, annotated, and its diagnostics. -/
def checkSource (source : String) : Except Fault (Block × List Diagnostic) :=
  (parseSource source).map Block.check

end Jingle

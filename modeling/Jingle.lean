import Jingle.Command.Arguments
import Jingle.Command.Run
import Jingle.Diagnostic
import Jingle.Fault
import Jingle.Grammar.Cursor
import Jingle.Grammar.Expression
import Jingle.Grammar.Statement
import Jingle.Grammar.Table
import Jingle.Main
import Jingle.Number.Decimal
import Jingle.Number.Double
import Jingle.Number.Integer
import Jingle.Number.Shortest
import Jingle.Program
import Jingle.Report
import Jingle.Text.Blank
import Jingle.Text.Concealed
import Jingle.Text.Digit
import Jingle.Text.Line
import Jingle.Text.Mark
import Jingle.Text.Quoted
import Jingle.Text.Run
import Jingle.Token.Basic
import Jingle.Token.Escape
import Jingle.Token.Kind
import Jingle.Token.Lexer
import Jingle.Token.Pattern
import Jingle.Token.Scanner
import Jingle.Syntax.Basic
import Jingle.Syntax.Operator
import Jingle.Syntax.Outline
import Jingle.Syntax.Ty
import Jingle.Typing.Checker
import Jingle.Typing.Expression
import Jingle.Typing.Scope
import Jingle.Typing.State
import Jingle.Typing.Statement
import Jingle.Proofs.Typing.Rules
import Jingle.Proofs.Typing.Scope
import Jingle.Proofs.Typing.Models
import Jingle.Proofs.Typing.Adequacy
import Jingle.Proofs.Grammar.Rules
import Jingle.Proofs.Grammar.Cursor
import Jingle.Proofs.Grammar.Expression
import Jingle.Proofs.Grammar.Statement
import Jingle.Proofs.Grammar.Program
import Jingle.Proofs.Syntax.Tree
import Jingle.Proofs.Token.Lexeme
import Jingle.Proofs.Token.Pattern
import Jingle.Proofs.Token.Lexer
import Jingle.Proofs.Syntax.Printer
import Jingle.Proofs.Number.Integer
import Jingle.Proofs.Syntax.RoundTrip
import Jingle.Proofs.Typing.Coherence
import Jingle.Proofs.Text.Slice
import Jingle.Proofs.Text.Line
import Jingle.Proofs.Token.Shape
import Jingle.Proofs.Token.Munch
import Jingle.Proofs.Token.Lossless
import Jingle.Proofs.Token.Longest
import Jingle.Proofs.Token.Truncation
import Jingle.Proofs.Token.Seam
import Jingle.Proofs.Token.Line
import Jingle.Proofs.Typing.Erasure
import Jingle.Proofs.Syntax.Relabelling
import Jingle.Proofs.Typing.Relabelling
import Jingle.Proofs.Typing.Layout
import Jingle.Proofs.Grammar.Layout
import Jingle.Proofs.Layout
import Jingle.Proofs.Typing.Growth
import Jingle.Proofs.Grammar.Settled
import Jingle.Proofs.Grammar.Viable
import Jingle.Proofs.Typing.Lines
import Jingle.Proofs.Shown
import Jingle.Proofs.Typing.RootCause
import Jingle.Proofs.Typing.Independence
import Jingle.Proofs.Command.Agreement
import Jingle.Proofs.Typing.Walk
import Jingle.Proofs.Typing.Invariant
import Jingle.Proofs.Typing.Bearer
import Jingle.Proofs.Typing.Returns
import Jingle.Proofs.Typing.Visibility
import Jingle.Proofs.Grammar.Order
import Jingle.Proofs.Citation
import Jingle.Proofs.Typing.Layers
import Jingle.Proofs.Typing.Clash
import Jingle.Proofs.Grammar.Precedence
import Jingle.Proofs.Grammar.Progress
import Jingle.Proofs.Grammar.Ending
import Jingle.Proofs.Grammar.LineOrder
import Jingle.Proofs.Token.Origin
import Jingle.Proofs.Syntax.Literal
import Jingle.Proofs.Number.Decimal
import Jingle.Proofs.Syntax.Numeral
import Jingle.Proofs.Caret
import Jingle.Proofs.Number.Signed
import Jingle.Proofs.Syntax.Preorder
import Jingle.Proofs.Text.Column
import Jingle.Proofs.Typing.Tuple

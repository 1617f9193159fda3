import Monkey.CommandLine
import Monkey.Folder
import Monkey.Limits
import Monkey.Main
import Monkey.Run
import Monkey.Session.Basic
import Monkey.Session.Buffer
import Monkey.Session.Highlight
import Monkey.Text.Quoted
import Monkey.Text.Utf8
import Monkey.Proofs.Syntax.Clean
import Monkey.Proofs.Syntax.Constructs
import Monkey.Proofs.Syntax.Grammar
import Monkey.Proofs.Syntax.Phrase
import Monkey.Proofs.Syntax.Sound
import Monkey.Proofs.Syntax.Regroup
import Monkey.Proofs.Syntax.Complete
import Monkey.Proofs.Syntax.Enough
import Monkey.Proofs.Syntax.Relocate
import Monkey.Proofs.Syntax.Exact
import Monkey.Proofs.Syntax.Traversal
import Monkey.Proofs.Token.Layout
import Monkey.Proofs.Syntax.Formula
import Monkey.Proofs.Syntax.Chain
import Monkey.Proofs.Evaluation.Follows
import Monkey.Proofs.Evaluation.Signals
import Monkey.Proofs.Evaluation.Frame
import Monkey.Proofs.Evaluation.Contained
import Monkey.Proofs.Syntax.Balance
import Monkey.Proofs.Syntax.Sequence
import Monkey.Proofs.Evaluation.Relocate
import Monkey.Proofs.Run.Append
import Monkey.Proofs.Syntax.Faithful
import Monkey.Proofs.Syntax.RoundTrip
import Monkey.Proofs.Run.Arithmetic
import Monkey.Proofs.Run.Data
import Monkey.Proofs.Evaluation.Regular
import Monkey.Proofs.Syntax.Earliest
import Monkey.Proofs.Token.Rendering
import Monkey.Proofs.Evaluation.Mirror
import Monkey.Proofs.Evaluation.Closed
import Monkey.Proofs.Run.Words
import Monkey.Proofs.Evaluation.Unmentioned
import Monkey.Proofs.Evaluation.Curry
import Monkey.Proofs.Token.Spans
import Monkey.Proofs.Evaluation.Ahead
import Monkey.Proofs.Session.Entries
import Monkey.Proofs.Session.Reset
import Monkey.Proofs.Session.Idle
import Monkey.Proofs.Syntax.Course
import Monkey.Proofs.Session.Echo
import Monkey.Proofs.Syntax.Filled
import Monkey.Proofs.Run.Places
import Monkey.Proofs.Value.Equality
import Monkey.Proofs.Value.Integer
import Monkey.Proofs.Evaluation.Wrapping
import Monkey.Proofs.Value.Entries
import Monkey.Proofs.Evaluation.HashLiteral
import Monkey.Proofs.Evaluation.Array
import Monkey.Proofs.Evaluation.Existing
import Monkey.Proofs.Run.History
import Monkey.Proofs.Run.Lexical
import Monkey.Proofs.Evaluation.Passing
import Monkey.Proofs.Run.Moment
import Monkey.Proofs.Run.Identity
import Monkey.Proofs.Session.Enter
import Monkey.Proofs.Token.Brackets
import Monkey.Proofs.Session.OpenEntry
import Monkey.Proofs.Session.Highlight
import Monkey.Proofs.Token.Lines
import Monkey.Proofs.Syntax.Outline
import Monkey.Proofs.Token.Unclosed
import Monkey.Proofs.CommandLine.Status
import Monkey.Proofs.CommandLine.Routes

import Plc.Text.Blank
import Plc.Text.Glob
import Plc.Text.Case
import Plc.Text.Letter
import Plc.Number.Double
import Plc.SyntaxError
import Plc.Dialect
import Plc.Token.Scan
import Plc.Literal
import Plc.Tree.Decl
import Plc.Grammar.Cursor
import Plc.Grammar.Expr
import Plc.Grammar.Stmt
import Plc.Reading
import Plc.Printer
import Plc.Tree.Walk
import Plc.Tree.Node
import Plc.Flow.Build
import Plc.Flow.Complexity
import Plc.Diagnostic
import Plc.Types.Ty
import Plc.Types.Registry
import Plc.Scope
import Plc.Check.Pou
import Plc.Ladder.Reading
import Plc.Exchange.Tree
import Plc.Exchange.Answer
import Plc.Model.Project
import Plc.Model.CrossReference
import Plc.Model.Conversion
import Plc.Exchange.Project
import Plc.Controller.Analysis
import Plc.Exchange.Controller
import Plc.Proofs.Flow.Run
import Plc.Proofs.Flow.Fragment
import Plc.Proofs.Flow.Exact
import Plc.Proofs.Grammar.Run
import Plc.Proofs.Grammar.Triple
import Plc.Proofs.Grammar.Congruence
import Plc.Proofs.Grammar.ExprCongruence
import Plc.Proofs.Grammar.StmtCongruence
import Plc.Proofs.Grammar.DeclCongruence
import Plc.Proofs.Grammar.Ahead
import Plc.Proofs.Grammar.Precedence
import Plc.Proofs.NodeCount.Account
import Plc.Proofs.NodeCount.Expr
import Plc.Proofs.NodeCount.Stmt
import Plc.Proofs.NodeCount.Decl
import Plc.Proofs.NodeCount.Unit
import Plc.Proofs.Recovery.Agreement
import Plc.Proofs.Recovery.Statements
import Plc.Proofs.Recovery.Unit
import Plc.Proofs.Token.Split
import Plc.Proofs.Token.Follow
import Plc.Proofs.Token.Kept
import Plc.Proofs.Token.Stretch
import Plc.Proofs.Token.Class
import Plc.Proofs.RoundTrip.Word
import Plc.Proofs.RoundTrip.Tree
import Plc.Proofs.RoundTrip.OwnText
import Plc.Proofs.RoundTrip.Phrase
import Plc.Proofs.RoundTrip.Layout
import Plc.Proofs.RoundTrip.Reads
import Plc.Proofs.RoundTrip.Opening
import Plc.Proofs.RoundTrip.Operand
import Plc.Proofs.RoundTrip.Operation
import Plc.Proofs.RoundTrip.Label
import Plc.Proofs.RoundTrip.Statement
import Plc.Proofs.RoundTrip.Printed
import Plc.Proofs.Yield.Tree
import Plc.Proofs.Yield.Count
import Plc.Proofs.Yield.Transcript
import Plc.Proofs.Yield.Semicolon
import Plc.Proofs.Yield.Expr
import Plc.Proofs.Yield.Stmt
import Plc.Proofs.Yield.Reading
import Plc.Proofs.Token.Tiling
import Plc.Proofs.Token.Separated
import Plc.Proofs.Limits.Raised
import Plc.Proofs.Limits.Sizes
import Plc.Proofs.Limits.Within
import Plc.Proofs.Formatting.Shape
import Plc.Proofs.Formatting.Smell
import Plc.Proofs.Formatting.Twin
import Plc.Proofs.Formatting.Expr
import Plc.Proofs.Formatting.Stmt
import Plc.Proofs.Formatting.Reading
import Plc.Proofs.Ladder.Reread
import Plc.Proofs.Ladder.Viable
import Plc.Proofs.Operand.Brackets
import Plc.Proofs.Operand.Formula
import Plc.Proofs.Operand.Tags
import Plc.Proofs.Operand.Read
import Plc.Proofs.Nesting.Reading
import Plc.Proofs.Check.Blur
import Plc.Proofs.Check.Forget
import Plc.Proofs.Controller.Isolation
import Plc.Proofs.Keyed
import Plc.Proofs.Controller.Walk
import Plc.Proofs.Controller.Tally
import Plc.Proofs.Depth.Reading
import Plc.Proofs.Nesting.Unit
import Plc.Proofs.Flow.Drain
import Plc.Proofs.Flow.WellFormed
import Plc.Proofs.Scope.Marks
import Plc.Proofs.Types.Meaning
import Plc.Proofs.Check.Acts
import Plc.Proofs.Check.Performed
import Plc.Proofs.Check.Names
import Plc.Proofs.Flow.Site
import Plc.Proofs.Check.Smell
import Plc.Proofs.Flow.Cyclomatic
import Plc.Proofs.Flow.DeadCode
import Plc.Proofs.Scope.Step
import Plc.Proofs.Scope.Frames
import Plc.Proofs.Scope.Run
import Plc.Proofs.Check.Stands
import Plc.Proofs.Check.Pou
import Plc.Proofs.Fallible
import Plc.Proofs.Mention.Names
import Plc.Proofs.Mention.Told
import Plc.Proofs.Mention.Expr
import Plc.Proofs.Mention.Stmt
import Plc.Proofs.Mention.Unused
import Plc.Proofs.Moved.Tree
import Plc.Proofs.Moved.Tracks
import Plc.Proofs.Grammar.Names
import Plc.Proofs.Token.Feed
import Plc.Proofs.Token.Unreadable
import Plc.Proofs.Token.StringLiteral
import Plc.Proofs.Literal.Duration
import Plc.Proofs.Caret
import Plc.Proofs.Moved.Expr
import Plc.Proofs.Moved.Stmt
import Plc.Proofs.Moved.Whole
import Plc.Proofs.Moved.Region
import Plc.Proofs.Moved.Branch
import Plc.Proofs.Moved.Case
import Plc.Proofs.Check.Depth
import Plc.Proofs.Walk.Agreement
import Plc.Proofs.Walk.Mentions
import Plc.Proofs.Progress.Reading
import Plc.Proofs.Model.Shape
import Plc.Proofs.Ladder.Slice
import Plc.Proofs.Calls.Tree
import Plc.Proofs.Calls.Reading
import Plc.Proofs.Moved.Framed
import Plc.Proofs.Moved.Block
import Plc.Proofs.Moved.Enclosed
import Plc.Proofs.Recovery.Balance

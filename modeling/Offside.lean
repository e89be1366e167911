import Offside.Command
import Offside.Exec.Eval
import Offside.Exec.Execution
import Offside.Exec.Machine
import Offside.Exec.Order
import Offside.Exec.Sink
import Offside.Main
import Offside.Notice
import Offside.Parse.Expression
import Offside.Parse.ParseError
import Offside.Parse.Parser
import Offside.Parse.Program
import Offside.Parse.Progress
import Offside.Parse.Statement
import Offside.Program.Class
import Offside.Program.Equality
import Offside.Program.Operator
import Offside.Program.Syntax
import Offside.Proofs.Classes.Building
import Offside.Proofs.Classes.Mentions
import Offside.Proofs.Classes.Order
import Offside.Proofs.Comparison.CodePoints
import Offside.Proofs.Comparison.Questions
import Offside.Proofs.Comparison.TotalOrder
import Offside.Proofs.Evaluation.Composition
import Offside.Proofs.Evaluation.Depth
import Offside.Proofs.Evaluation.Effects
import Offside.Proofs.Evaluation.Growth
import Offside.Proofs.Evaluation.Names
import Offside.Proofs.Evaluation.Output
import Offside.Proofs.Evaluation.Printing
import Offside.Proofs.Evaluation.Record
import Offside.Proofs.Evaluation.Rendering
import Offside.Proofs.Evaluation.Returns
import Offside.Proofs.Grammar.Completeness
import Offside.Proofs.Grammar.Context
import Offside.Proofs.Grammar.Derivation
import Offside.Proofs.Grammar.Phrase
import Offside.Proofs.Grammar.Productions
import Offside.Proofs.Grammar.Shapes
import Offside.Proofs.Grammar.Soundness
import Offside.Proofs.Grammar.Steps
import Offside.Proofs.Grammar.Unambiguity
import Offside.Proofs.Instances.Aliases
import Offside.Proofs.Instances.Bookkeeping
import Offside.Proofs.Instances.Census
import Offside.Proofs.Instances.Cycles
import Offside.Proofs.Instances.Keeping
import Offside.Proofs.Instances.Paths
import Offside.Proofs.Instances.Prefixes
import Offside.Proofs.Instances.Programs
import Offside.Proofs.Instances.Termination
import Offside.Proofs.Layout.Lines
import Offside.Proofs.Layout.Nesting
import Offside.Proofs.Layout.Run
import Offside.Proofs.Layout.Spacing
import Offside.Proofs.Lexis.Account
import Offside.Proofs.Lexis.Calls
import Offside.Proofs.Lexis.Coverage
import Offside.Proofs.Lexis.Displacement
import Offside.Proofs.Lexis.Integers
import Offside.Proofs.Lexis.Joining
import Offside.Proofs.Lexis.Literals
import Offside.Proofs.Lexis.Lockstep
import Offside.Proofs.Lexis.Moves
import Offside.Proofs.Lexis.Rendering
import Offside.Proofs.Lexis.Spelling
import Offside.Proofs.Methods.Dispatch
import Offside.Proofs.Methods.Locals
import Offside.Proofs.Parsing.Composition
import Offside.Proofs.Parsing.Correspondence
import Offside.Proofs.Parsing.Lookahead
import Offside.Proofs.Parsing.Prediction
import Offside.Proofs.Parsing.Refusal
import Offside.Proofs.Parsing.Relocation
import Offside.Proofs.Parsing.Simulation
import Offside.Proofs.Parsing.Unrolling
import Offside.Proofs.Printing.Integers
import Offside.Proofs.Printing.RoundTrip
import Offside.Proofs.Printing.Shortest
import Offside.Proofs.Printing.Source
import Offside.Proofs.Printing.Writings
import Offside.Proofs.Results
import Offside.Proofs.Trees.Faults
import Offside.Proofs.Trees.WellFormed
import Offside.Proofs.Values.Listing
import Offside.Proofs.Values.Words
import Offside.Source.Cursor
import Offside.Source.LexError
import Offside.Source.Position
import Offside.Text.Blank
import Offside.Text.CharSet
import Offside.Text.Letter
import Offside.Text.Line
import Offside.Text.Numeral
import Offside.Text.Quoted
import Offside.Text.Visible
import Offside.Token.Kind
import Offside.Token.Lexeme
import Offside.Token.Lexer
import Offside.Token.Source
import Offside.Token.Stream
import Offside.Value.Arithmetic
import Offside.Value.Basic
import Offside.Value.Handle
import Offside.Value.RuntimeError
import Offside.Value.Scope
import Offside.Value.Store

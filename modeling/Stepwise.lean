import Stepwise.Text.Blank
import Stepwise.Text.Case
import Stepwise.Text.Letter
import Stepwise.Text.Search
import Stepwise.Number.Bounded
import Stepwise.Number.Layout
import Stepwise.Number.Reading
import Stepwise.Script.Lexer
import Stepwise.Json.Reader
import Stepwise.Json.Writer
import Stepwise.Script.Parser
import Stepwise.Script.Listing
import Stepwise.Run.Error
import Stepwise.Text.Quoted
import Stepwise.Value.Key
import Stepwise.Value.Range
import Stepwise.Value.Compare
import Stepwise.Value.Interchange
import Stepwise.Value.Iteration
import Stepwise.Value.Render
import Stepwise.Run.Action
import Stepwise.Run.Arithmetic
import Stepwise.Run.Arguments
import Stepwise.Run.Operators
import Stepwise.Run.Subscript
import Stepwise.Run.Methods
import Stepwise.Run.Sorting
import Stepwise.Run.Machine
import Stepwise.Run.Exception
import Stepwise.Run.Evaluation
import Stepwise.Run.Interpreter
import Stepwise.Run.Namespace
import Stepwise.Record.Tracer
import Stepwise.Main
import Stepwise.Proofs.Recording
import Stepwise.Proofs.Transparency
import Stepwise.Proofs.Bracketing
import Stepwise.Proofs.Reporting
import Stepwise.Proofs.Safety
import Stepwise.Proofs.Sources
import Stepwise.Proofs.Independence
import Stepwise.Proofs.Failures
import Stepwise.Proofs.CallLimit
import Stepwise.Proofs.Exhaustion
import Stepwise.Proofs.WellFormed
import Stepwise.Proofs.Naming.Frames
import Stepwise.Proofs.Lexing.Nesting
import Stepwise.Proofs.Lexing.Insertion
import Stepwise.Proofs.Lexing.LineEndings
import Stepwise.Proofs.Quoting
import Stepwise.Proofs.Precedence
import Stepwise.Proofs.Rereading
import Stepwise.Proofs.Filing
import Stepwise.Proofs.Copying.Capture
import Stepwise.Proofs.Copying.Rendering
import Stepwise.Proofs.Eviction
import Stepwise.Proofs.Interchange.Echo
import Stepwise.Proofs.Ranges.Slices
import Stepwise.Proofs.Ranges.Searching
import Stepwise.Proofs.Arithmetic
import Stepwise.Proofs.Parsing.Filled
import Stepwise.Proofs.Ordering.Coherence
import Stepwise.Proofs.Sorting.Selection
import Stepwise.Proofs.Sorting.InPlace
import Stepwise.Proofs.Keying
import Stepwise.Proofs.Numerals
import Stepwise.Proofs.Binding
import Stepwise.Proofs.Containers.Removal
import Stepwise.Proofs.Containers.Views
import Stepwise.Proofs.Texts.Finding
import Stepwise.Proofs.Texts.Words
import Stepwise.Proofs.Rounds
import Stepwise.Proofs.Places
import Stepwise.Proofs.Parsing.Termination
import Stepwise.Proofs.Copying.Members

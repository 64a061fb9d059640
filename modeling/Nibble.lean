import Nibble.Assembler
import Nibble.Assembly.Basic
import Nibble.Assembly.Directive
import Nibble.Assembly.Expansion
import Nibble.Assembly.Pass
import Nibble.CallStack
import Nibble.CommandLine
import Nibble.Directory
import Nibble.Expression.Arithmetic
import Nibble.Expression.Builtin
import Nibble.Expression.Comparison
import Nibble.Expression.Evaluation
import Nibble.Expression.Format
import Nibble.Expression.Grammar
import Nibble.Expression.Literal
import Nibble.Expression.Operator
import Nibble.Expression.Real
import Nibble.Expression.Resolution
import Nibble.Expression.Script
import Nibble.Expression.Store
import Nibble.Expression.Token
import Nibble.Expression.Tree
import Nibble.Expression.Value
import Nibble.Failure
import Nibble.Instruction
import Nibble.Machine.Basic
import Nibble.Machine.Report
import Nibble.Machine.Run
import Nibble.Main
import Nibble.Memory
import Nibble.Number
import Nibble.Operation
import Nibble.Program.Basic
import Nibble.Proofs.Assembly.Directive
import Nibble.Proofs.Machine.Dispatch
import Nibble.Proofs.Machine.Trace
import Nibble.Sequence
import Nibble.Session
import Nibble.Source.Lines
import Nibble.Source.Substitution
import Nibble.Table
import Nibble.Text.Basic
import Nibble.Text.Blank
import Nibble.Text.Glyph
import Nibble.Text.Letter
import Nibble.Text.Numeral
import Nibble.Text.Printable
import Nibble.Text.Quoted
import Nibble.Word
import Nibble.Proofs.Table
import Nibble.Proofs.Assembly.Edits
import Nibble.Proofs.Assembly.Pass
import Nibble.Proofs.Assembly.Layout
import Nibble.Proofs.Assembly.Linking
import Nibble.Proofs.Source.Lines
import Nibble.Proofs.Instruction
import Nibble.Proofs.Assembly.Listing
import Nibble.Proofs.RoundTrip
import Nibble.Proofs.Machine.Fault
import Nibble.Proofs.Machine.Nesting
import Nibble.Proofs.Assembly.Cause
import Nibble.Proofs.Assembly.Recursion
import Nibble.Proofs.Assembly.Depth
import Nibble.Proofs.Session.Run
import Nibble.Proofs.Machine.Dependence
import Nibble.Proofs.Machine.Checked
import Nibble.Proofs.Machine.Invariant
import Nibble.Proofs.Session.Reset
import Nibble.Proofs.CommandLine
import Nibble.Proofs.Assembly.Equates
import Nibble.Proofs.Assembly.Continuation
import Nibble.Proofs.Assembly.Definitions
import Nibble.Proofs.Assembly.Report
import Nibble.Proofs.Assembly.Visits
import Nibble.Proofs.Assembly.LocalLabels
import Nibble.Proofs.Assembly.Grammar
import Nibble.Proofs.Source.Rewriting
import Nibble.Proofs.Assembly.CharacterLiterals
import Nibble.Proofs.Text.Words
import Nibble.Proofs.Assembly.ExpressionOperands
import Nibble.Proofs.Assembly.Inlining
import Nibble.Proofs.Program.Overlap
import Nibble.Proofs.Session.Loading
import Nibble.Proofs.Session.View
import Nibble.Proofs.Assembly.Emission
import Nibble.Proofs.CallStack
import Nibble.Proofs.IntegerLiterals
import Nibble.Proofs.Program.Listing
import Nibble.Proofs.Assembly.Attribution
import Nibble.Proofs.Sequence

import KLang.Builtin.Basic
import KLang.Builtin.Math
import KLang.Builtin.Plotting
import KLang.Builtin.Signature
import KLang.Builtin.Trig
import KLang.CommandLine
import KLang.Fault
import KLang.Interpreter.Calling
import KLang.Interpreter.Evaluation
import KLang.Interpreter.Run
import KLang.Interpreter.Session
import KLang.Interpreter.State
import KLang.Location
import KLang.Main
import KLang.Number.Arithmetic
import KLang.Number.Basic
import KLang.Number.Circular
import KLang.Number.Decimal
import KLang.Number.Enclosure
import KLang.Number.Exponential
import KLang.Number.FreeText
import KLang.Number.Gamma
import KLang.Number.Power
import KLang.Number.Root
import KLang.Number.Rounding
import KLang.Number.Text
import KLang.Number.Word
import KLang.Program.Basic
import KLang.Program.Expression
import KLang.Program.Parsing
import KLang.Program.Statement
import KLang.Proofs.Absence.Run
import KLang.Proofs.Absence.Value
import KLang.Proofs.Builtin.Dispatch
import KLang.Proofs.Builtin.Fibonacci
import KLang.Proofs.Builtin.Integrality
import KLang.Proofs.Builtin.Prime
import KLang.Proofs.Builtin.Registry
import KLang.Proofs.Builtin.Rounding
import KLang.Proofs.Call
import KLang.Proofs.Command.Outcome
import KLang.Proofs.Command.Switches
import KLang.Proofs.Composition
import KLang.Proofs.Evaluation.Bisimulation
import KLang.Proofs.Evaluation.Discipline
import KLang.Proofs.Evaluation.Effect
import KLang.Proofs.Evaluation.Frame
import KLang.Proofs.Evaluation.Imports
import KLang.Proofs.Evaluation.Relocation
import KLang.Proofs.Evaluation.Scope
import KLang.Proofs.Evaluation.Variables
import KLang.Proofs.Grammar.Expression
import KLang.Proofs.Grammar.Nesting
import KLang.Proofs.Grammar.Statement
import KLang.Proofs.Grammar.Word
import KLang.Proofs.History
import KLang.Proofs.ImportOrder
import KLang.Proofs.Lexing.Join
import KLang.Proofs.Lexing.Layout
import KLang.Proofs.Lexing.Lines
import KLang.Proofs.Lexing.Munch
import KLang.Proofs.Lexing.Scan
import KLang.Proofs.Lexing.Spelling
import KLang.Proofs.Locations
import KLang.Proofs.Machine.Body
import KLang.Proofs.Machine.Calls
import KLang.Proofs.Machine.Change
import KLang.Proofs.Machine.Parsed
import KLang.Proofs.Machine.Printing
import KLang.Proofs.Machine.Signals
import KLang.Proofs.Machine.Simulation
import KLang.Proofs.Machine.Step
import KLang.Proofs.Machine.TopLevel
import KLang.Proofs.Machine.Trace
import KLang.Proofs.Number.Bitwise
import KLang.Proofs.Number.Decimal
import KLang.Proofs.Number.Integers
import KLang.Proofs.Number.Literal
import KLang.Proofs.Number.Nearest
import KLang.Proofs.Number.Order
import KLang.Proofs.Number.Overflow
import KLang.Proofs.Number.Power
import KLang.Proofs.Number.Quotient
import KLang.Proofs.Number.Remainder
import KLang.Proofs.Number.Sum
import KLang.Proofs.Number.Text
import KLang.Proofs.Number.Truncation
import KLang.Proofs.Number.WordRange
import KLang.Proofs.Parsing.Anchors
import KLang.Proofs.Parsing.Binding
import KLang.Proofs.Parsing.Expression
import KLang.Proofs.Parsing.Outcome
import KLang.Proofs.Parsing.Placement
import KLang.Proofs.Parsing.Program
import KLang.Proofs.Parsing.Relocation
import KLang.Proofs.Parsing.Separators
import KLang.Proofs.Parsing.Spacing
import KLang.Proofs.Parsing.Statement
import KLang.Proofs.Pulling.Basic
import KLang.Proofs.Pulling.Expression
import KLang.Proofs.Pulling.Statement
import KLang.Proofs.Rejection.Early
import KLang.Proofs.Rejection.Expression
import KLang.Proofs.Rejection.Program
import KLang.Proofs.Rejection.Statement
import KLang.Proofs.Switch.Basic
import KLang.Proofs.Switch.Expression
import KLang.Proofs.Switch.Statement
import KLang.Proofs.Switch.Visits
import KLang.Proofs.Table
import KLang.Proofs.Text.Encoding
import KLang.Table
import KLang.Text.Blank
import KLang.Text.CharRange
import KLang.Text.Digit
import KLang.Text.Encoding
import KLang.Text.Escaped
import KLang.Text.Printable
import KLang.Text.Words
import KLang.Token.Basic
import KLang.Token.Lexer
import KLang.Token.Listing
import KLang.Value.Basic
import KLang.Value.Operation
import KLang.Value.Operator

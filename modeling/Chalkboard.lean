import Chalkboard.Calculator
import Chalkboard.Command.Options
import Chalkboard.Command.Run
import Chalkboard.Comparison
import Chalkboard.Comparison.Listing
import Chalkboard.Decimal.Basic
import Chalkboard.Decimal.Binary64
import Chalkboard.Decimal.Literal
import Chalkboard.Decimal.Shortest
import Chalkboard.Decimal.Text
import Chalkboard.Equation.Basic
import Chalkboard.Equation.Reader
import Chalkboard.Equation.Term
import Chalkboard.Grid.Basic
import Chalkboard.Grid.Determinant
import Chalkboard.Grid.Inverse
import Chalkboard.Grid.RowOp
import Chalkboard.InputError
import Chalkboard.Json.Basic
import Chalkboard.Json.Lexer
import Chalkboard.Json.Parser
import Chalkboard.Json.Printer
import Chalkboard.Main
import Chalkboard.Method.BackSubstitution
import Chalkboard.Method.Basic
import Chalkboard.Method.Cramer
import Chalkboard.Method.Elimination
import Chalkboard.Method.Factorization
import Chalkboard.Method.Gauss
import Chalkboard.Method.GaussJordan
import Chalkboard.Practice.Keystream
import Chalkboard.Practice.System
import Chalkboard.Practice.WordSource
import Chalkboard.Proofs.Calculator.Inverse
import Chalkboard.Proofs.Checked.Access
import Chalkboard.Proofs.Checked.Construction
import Chalkboard.Proofs.Checked.Determinant
import Chalkboard.Proofs.Checked.Elimination
import Chalkboard.Proofs.Checked.Factorization
import Chalkboard.Proofs.Checked.Method
import Chalkboard.Proofs.Checked.Substitution
import Chalkboard.Proofs.Comparison.Agreement
import Chalkboard.Proofs.Decimal.Entry
import Chalkboard.Proofs.Decimal.Fixed
import Chalkboard.Proofs.Decimal.Literal
import Chalkboard.Proofs.Decimal.Magnitude
import Chalkboard.Proofs.Decimal.Nearest
import Chalkboard.Proofs.Decimal.One
import Chalkboard.Proofs.Decimal.Pattern
import Chalkboard.Proofs.Decimal.Reading
import Chalkboard.Proofs.Decimal.Rounding
import Chalkboard.Proofs.Decimal.Total
import Chalkboard.Proofs.Decimal.Zero
import Chalkboard.Proofs.Equation.Grammar
import Chalkboard.Proofs.Equation.Leftmost
import Chalkboard.Proofs.Equation.Overflow
import Chalkboard.Proofs.Equation.Printing
import Chalkboard.Proofs.Equation.Term
import Chalkboard.Proofs.Grid.Columns
import Chalkboard.Proofs.Grid.Determinant
import Chalkboard.Proofs.Grid.Expansion
import Chalkboard.Proofs.Grid.Largest
import Chalkboard.Proofs.Grid.Matrix
import Chalkboard.Proofs.Grid.Pivot
import Chalkboard.Proofs.Grid.Reversal
import Chalkboard.Proofs.Grid.RowOp
import Chalkboard.Proofs.Grid.Triangular
import Chalkboard.Proofs.Json.Fields
import Chalkboard.Proofs.Json.Grammar
import Chalkboard.Proofs.Json.Layout
import Chalkboard.Proofs.Json.Members
import Chalkboard.Proofs.Json.Number
import Chalkboard.Proofs.Json.Quantity
import Chalkboard.Proofs.Json.Reading
import Chalkboard.Proofs.Json.Scanning
import Chalkboard.Proofs.Json.Writing
import Chalkboard.Proofs.Loop
import Chalkboard.Proofs.Method.BoardOrder
import Chalkboard.Proofs.Method.Closing
import Chalkboard.Proofs.Method.Cramer
import Chalkboard.Proofs.Method.Display
import Chalkboard.Proofs.Method.Elimination
import Chalkboard.Proofs.Method.Ending
import Chalkboard.Proofs.Method.Factorization
import Chalkboard.Proofs.Method.Frame
import Chalkboard.Proofs.Method.Gauss
import Chalkboard.Proofs.Method.GaussJordan
import Chalkboard.Proofs.Method.Growth
import Chalkboard.Proofs.Method.Guarded
import Chalkboard.Proofs.Method.Inverse
import Chalkboard.Proofs.Method.LeadingMinors
import Chalkboard.Proofs.Method.Lockstep
import Chalkboard.Proofs.Method.Pivots
import Chalkboard.Proofs.Method.Reach
import Chalkboard.Proofs.Method.Regular
import Chalkboard.Proofs.Method.Replay
import Chalkboard.Proofs.Method.Residue
import Chalkboard.Proofs.Method.RightSide
import Chalkboard.Proofs.Method.Steps
import Chalkboard.Proofs.Method.Substitution
import Chalkboard.Proofs.Method.Tolerance
import Chalkboard.Proofs.Method.Values
import Chalkboard.Proofs.Method.WithoutExchanges
import Chalkboard.Proofs.Practice.Draw
import Chalkboard.Proofs.Practice.System
import Chalkboard.Proofs.Request.Written
import Chalkboard.Proofs.Response.Reply
import Chalkboard.Proofs.Response.Steps
import Chalkboard.Proofs.Scalar.Exact
import Chalkboard.Proofs.Scalar.Guarded
import Chalkboard.Proofs.Settings.Check
import Chalkboard.Proofs.Settings.Choice
import Chalkboard.Proofs.Settings.Partial
import Chalkboard.Proofs.Settings.Saved
import Chalkboard.Proofs.System.Refusal
import Chalkboard.Proofs.System.RoundTrip
import Chalkboard.Proofs.System.Solution
import Chalkboard.Proofs.Toml.Apart
import Chalkboard.Proofs.Toml.Grammar
import Chalkboard.Proofs.Toml.Lines
import Chalkboard.Proofs.Toml.Quotes
import Chalkboard.Proofs.Toml.Reading
import Chalkboard.Proofs.Toml.Runs
import Chalkboard.Proofs.Toml.Values
import Chalkboard.Proofs.Worked.Data
import Chalkboard.Proofs.Worked.Map
import Chalkboard.Proofs.Worked.Outcome
import Chalkboard.Proofs.Worked.Picture
import Chalkboard.Proofs.Worked.Rendering
import Chalkboard.Proofs.Worked.Replay
import Chalkboard.Request
import Chalkboard.Scalar
import Chalkboard.Settings
import Chalkboard.Settings.Changes
import Chalkboard.Settings.File
import Chalkboard.System.Basic
import Chalkboard.Table
import Chalkboard.TableError
import Chalkboard.Text.Blank
import Chalkboard.Text.Digit
import Chalkboard.Toml.Basic
import Chalkboard.Toml.Parser
import Chalkboard.Toml.Scalar
import Chalkboard.Toml.Text
import Chalkboard.Worked.Json
import Chalkboard.Worked.Outcome
import Chalkboard.Worked.Step
import Chalkboard.Worked.Text

import Formula.Bindings
import Formula.Curve
import Formula.Elementary
import Formula.Expr
import Formula.Expr.Eval
import Formula.Expr.Fold
import Formula.Expr.OfPostfix
import Formula.Expr.Printer
import Formula.Expr.Shape
import Formula.Expr.Vars
import Formula.Interval
import Formula.Journal
import Formula.Number.Decimal
import Formula.Number.Literal
import Formula.Number.Shortest
import Formula.Operator
import Formula.Outcome
import Formula.Plot
import Formula.Postfix
import Formula.Proofs.Alternation
import Formula.Proofs.Comparing
import Formula.Proofs.Compiling
import Formula.Proofs.Conditionals
import Formula.Proofs.Conservation
import Formula.Proofs.Containment
import Formula.Proofs.Continuation
import Formula.Proofs.Counting
import Formula.Proofs.Dependence
import Formula.Proofs.Drawing
import Formula.Proofs.Evaluating
import Formula.Proofs.Failures
import Formula.Proofs.Folding
import Formula.Proofs.Grammar
import Formula.Proofs.Heights
import Formula.Proofs.Intervals
import Formula.Proofs.Inventory
import Formula.Proofs.Lengths
import Formula.Proofs.Lexing
import Formula.Proofs.Marks
import Formula.Proofs.Nodes
import Formula.Proofs.NormalForm
import Formula.Proofs.Number.Arithmetic
import Formula.Proofs.Number.Nearest
import Formula.Proofs.Number.Order
import Formula.Proofs.Number.Packing
import Formula.Proofs.Number.ReadBack
import Formula.Proofs.Number.Rounding
import Formula.Proofs.Number.Value
import Formula.Proofs.Occurrences
import Formula.Proofs.Parentheses
import Formula.Proofs.Parsed
import Formula.Proofs.Partition
import Formula.Proofs.Positions
import Formula.Proofs.Postorder
import Formula.Proofs.Printing
import Formula.Proofs.Reading
import Formula.Proofs.Refusal
import Formula.Proofs.Relocation
import Formula.Proofs.Reordering
import Formula.Proofs.RoundTrip
import Formula.Proofs.Sessions
import Formula.Proofs.Shapes
import Formula.Proofs.Signs
import Formula.Proofs.Spacing
import Formula.Proofs.Unclosed
import Formula.Scan
import Formula.Session
import Formula.Text.Blank
import Formula.Text.Letter
import Formula.Text.Numeral
import Formula.Text.Ranges
import Formula.Token
import Formula.Token.Conditional
import Formula.Token.Reader
import Formula.Token.Sign

import Formulas.Algebraic.Basic
import Formulas.Algebraic.Value
import Formulas.Arithmetic.Basic
import Formulas.Arithmetic.Dual
import Formulas.Arithmetic.Extended
import Formulas.Arithmetic.Machine
import Formulas.Binary64.Basic
import Formulas.Binary64.Hardware
import Formulas.Binary64.Rounding
import Formulas.Constant
import Formulas.Coordinate
import Formulas.Decimal.Basic
import Formulas.Decimal.Layout
import Formulas.Decimal.Shortest
import Formulas.Formula.Basic
import Formulas.Formula.Derivative
import Formulas.Formula.Difference
import Formulas.Formula.Evaluation
import Formulas.Formula.Outline
import Formulas.Formula.Rendering
import Formulas.Formula.Traversal
import Formulas.Grid
import Formulas.Journal
import Formulas.Natural
import Formulas.Notation
import Formulas.Numeral
import Formulas.Operation
import Formulas.Proofs.Algebraic.Value
import Formulas.Proofs.Arithmetic.Contains
import Formulas.Proofs.Arithmetic.Exact
import Formulas.Proofs.Arithmetic.Ordered
import Formulas.Proofs.Arithmetic.Real
import Formulas.Proofs.Arithmetic.Ring
import Formulas.Proofs.Binary64.Exact
import Formulas.Proofs.Binary64.Nearest
import Formulas.Proofs.Binary64.Overflow
import Formulas.Proofs.Binary64.Rounding
import Formulas.Proofs.Constant.Canonical
import Formulas.Proofs.Constant.Exact
import Formulas.Proofs.Constant.Text
import Formulas.Proofs.Decimal.Shortest
import Formulas.Proofs.Formula.AbsentName
import Formulas.Proofs.Formula.CentralDifference
import Formulas.Proofs.Formula.Closure
import Formulas.Proofs.Formula.Constants
import Formulas.Proofs.Formula.Degree
import Formulas.Proofs.Formula.Derivative
import Formulas.Proofs.Formula.DerivativeFailure
import Formulas.Proofs.Formula.Evaluation
import Formulas.Proofs.Formula.EvaluationFailure
import Formulas.Proofs.Formula.FirstFailure
import Formulas.Proofs.Formula.GeometricMean
import Formulas.Proofs.Formula.HasSlope
import Formulas.Proofs.Formula.Jet
import Formulas.Proofs.Formula.Linearisation
import Formulas.Proofs.Formula.MixedDerivative
import Formulas.Proofs.Formula.Preorder
import Formulas.Proofs.Formula.Rules
import Formulas.Proofs.Formula.Scan
import Formulas.Proofs.Formula.Shape
import Formulas.Proofs.Formula.Slope
import Formulas.Proofs.Formula.Spelling
import Formulas.Proofs.Formula.Spine
import Formulas.Proofs.Formula.Tidiness
import Formulas.Proofs.Formula.Totality
import Formulas.Proofs.Formula.Traversal
import Formulas.Proofs.Formula.UniqueReading
import Formulas.Proofs.Grid.Evaluation
import Formulas.Proofs.Grid.Shape
import Formulas.Proofs.Journal.Channel
import Formulas.Proofs.Journal.Delivery
import Formulas.Proofs.Numeral.Digit
import Formulas.Proofs.Numeral.Grammar
import Formulas.Proofs.Numeral.Limit
import Formulas.Proofs.Numeral.Text
import Formulas.Proofs.Numeral.Value
import Formulas.Proofs.Operation
import Formulas.Proofs.Reading.Advance
import Formulas.Proofs.Reading.Balance
import Formulas.Proofs.Reading.Conservation
import Formulas.Proofs.Reading.Derivatives
import Formulas.Proofs.Reading.Discipline
import Formulas.Proofs.Reading.Faults
import Formulas.Proofs.Reading.Grammar
import Formulas.Proofs.Reading.Immediate
import Formulas.Proofs.Reading.Isolation
import Formulas.Proofs.Reading.Leniency
import Formulas.Proofs.Reading.Mending
import Formulas.Proofs.Reading.Mirror
import Formulas.Proofs.Reading.Mistakes
import Formulas.Proofs.Reading.Move
import Formulas.Proofs.Reading.Origin
import Formulas.Proofs.Reading.Phrase
import Formulas.Proofs.Reading.PhraseReading
import Formulas.Proofs.Reading.PlainForm
import Formulas.Proofs.Reading.Record
import Formulas.Proofs.Reading.RoundTrip
import Formulas.Proofs.Reading.Segment
import Formulas.Proofs.Reading.Steps
import Formulas.Proofs.Reading.Strictness
import Formulas.Proofs.Reading.Values
import Formulas.Proofs.Reading.WellFormed
import Formulas.Proofs.Reading.WriteBack
import Formulas.Proofs.Result
import Formulas.Proofs.Token.Layout
import Formulas.Proofs.Token.Run
import Formulas.Proofs.Token.Split
import Formulas.Proofs.Token.Text
import Formulas.Proofs.Workspace.Answers
import Formulas.Proofs.Workspace.Contents
import Formulas.Proofs.Workspace.Memory
import Formulas.Proofs.Workspace.Slope
import Formulas.Reading.Basic
import Formulas.Reading.Fault
import Formulas.Reading.Notice
import Formulas.Reading.State
import Formulas.Text.Blank
import Formulas.Text.Digit
import Formulas.Text.Printable
import Formulas.Text.Quoted
import Formulas.Token
import Formulas.Workspace.Basic
import Formulas.Workspace.Node
import Formulas.Workspace.Slope

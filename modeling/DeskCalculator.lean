import DeskCalculator.Calculation
import DeskCalculator.History.Store
import DeskCalculator.Input
import DeskCalculator.Window.Layout
import DeskCalculator.Window.State
import DeskCalculator.Proofs.Expression.Computing
import DeskCalculator.Proofs.Expression.Grammar
import DeskCalculator.Proofs.Expression.Scanning
import DeskCalculator.Proofs.Expression.Operand
import DeskCalculator.Proofs.Expression.Meaning
import DeskCalculator.Proofs.Expression.Acceptance
import DeskCalculator.Proofs.Numeric.ExactSteps
import DeskCalculator.Proofs.Expression.Composition
import DeskCalculator.Proofs.Numeric.DecimalValue
import DeskCalculator.Proofs.Numeric.ShortestDecimal
import DeskCalculator.Proofs.Numeric.ShortestLaw
import DeskCalculator.Proofs.Numeric.WholeValue
import DeskCalculator.Proofs.Numeric.NearestValue
import DeskCalculator.Proofs.Numeric.NumeralText
import DeskCalculator.Proofs.Recalculation
import DeskCalculator.Proofs.Continuation
import DeskCalculator.Proofs.Expression.Parentheses
import DeskCalculator.Proofs.Expression.Alphabet
import DeskCalculator.Proofs.Numeric.ResultRounding
import DeskCalculator.Proofs.Definedness
import DeskCalculator.Proofs.Rounding
import DeskCalculator.Proofs.Classification
import DeskCalculator.Proofs.Json.StringText
import DeskCalculator.Proofs.Json.RoundTrip
import DeskCalculator.Proofs.History.Persistence
import DeskCalculator.Proofs.Expression.Conservation
import DeskCalculator.Proofs.Expression.OperatorStack
import DeskCalculator.Proofs.Input.Typable
import DeskCalculator.Proofs.Input.Editing
import DeskCalculator.Proofs.Input.Literals
import DeskCalculator.Proofs.Window.Steps
import DeskCalculator.Proofs.Window.Restart
import DeskCalculator.Proofs.Window.Recall
import DeskCalculator.Proofs.Window.Typing
import DeskCalculator.Proofs.Window.View
import DeskCalculator.Proofs.ResultForm
import DeskCalculator.Proofs.Expression.Grouping
import DeskCalculator.Proofs.Expression.PostOrder
import DeskCalculator.Proofs.Expression.Rescanning
import DeskCalculator.Proofs.Spacing
import DeskCalculator.Proofs.Expression.Overflow
import DeskCalculator.Proofs.SignSymmetry
import DeskCalculator.Proofs.Numeric.WholeArithmetic
import DeskCalculator.Proofs.IntegerResults
import DeskCalculator.Proofs.History.Faults
import DeskCalculator.Proofs.History.Queue
import DeskCalculator.Proofs.Window.Rejection
import DeskCalculator.Proofs.Expression.Respelling
import DeskCalculator.Proofs.Input.Tidying
import DeskCalculator.Proofs.Json.NumberText
import DeskCalculator.Proofs.Json.Rendering
import DeskCalculator.Proofs.Json.Reading
import DeskCalculator.Proofs.History.Loading

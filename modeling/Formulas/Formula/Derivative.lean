import Formulas.Formula.Evaluation
/-! Derivatives of formulas. There is one rule for each operation; a rule knows every
operand together with its derivative. The number of operands is checked before any
operand is differentiated. Nothing is simplified. As for values, the depth of the formula has no
limit: differentiation that recurses on a stack of limited size may fail for that reason, too. -/
namespace Formulas

/-- A formula together with its derivative. -/
structure Jet where
  value : Formula
  slope : Formula

namespace Jet

/-- An integer constant, whose derivative is zero. -/
def integer (n : Int) : Jet :=
  ⟨.constant (.integer n), .constant (.integer 0)⟩

/-- A real constant, whose derivative is zero. -/
def real (x : Binary64) : Jet :=
  ⟨.constant (.real x), .constant (.integer 0)⟩

/-- The derivative of a sum is the sum of the derivatives. -/
def add (a b : Jet) : Jet :=
  ⟨.operation .add [a.value, b.value], .operation .add [a.slope, b.slope]⟩

/-- The product rule. -/
def mul (a b : Jet) : Jet :=
  ⟨.operation .mul [a.value, b.value],
    .operation .add [.operation .mul [a.slope, b.value], .operation .mul [a.value, b.slope]]⟩

/-- The quotient rule. -/
def div (a b : Jet) : Jet :=
  ⟨.operation .div [a.value, b.value],
    .operation .div
      [.operation .sub [.operation .mul [a.slope, b.value], .operation .mul [a.value, b.slope]],
        .operation .mul [b.value, b.value]]⟩

/-- Twice the sum of each operand times its derivative. -/
def hypotSlope (a b : Jet) : Formula :=
  .operation .mul
    [.constant (.integer 2),
      .operation .add [.operation .mul [a.value, a.slope], .operation .mul [b.value, b.slope]]]

/-- The derivative of `2ab / (a + b)`, with the square of each operand before the
derivative of the other. -/
def hmeanSlope (a b : Jet) : Formula :=
  .operation .mul
    [.constant (.integer 2),
      .operation .div
        [.operation .add
            [.operation .mul [.operation .mul [a.value, a.value], b.slope],
              .operation .mul [.operation .mul [b.value, b.value], a.slope]],
          .operation .mul
            [.operation .add [a.value, b.value], .operation .add [a.value, b.value]]]]

/-- The derivative of the sum, divided by the number of operands. -/
def arithMeanSlope (first : Jet) (rest : List Jet) : Formula :=
  .operation .div
    [(rest.foldl add first).slope, .constant (.integer (rest.length + 1))]

/-- The derivative of the product divided by the number `n` of operands, over the mean to
the power `n - 1`, which is written as a product. -/
def geomMeanSlope (first : Jet) (rest : List Jet) : Formula :=
  let mean : Formula := .operation .geomMean ((first :: rest).map value)
  let share : Jet := real (Binary64.round false 1 (rest.length + 1))
  .operation .div
    [(mul share (rest.foldl mul first)).slope,
      rest.foldl (fun power _ => .operation .mul [power, mean]) (.constant (.integer 1))]

/-- The derivative of the number of operands over the sum of their reciprocals. -/
def harmMeanSlope (operands : List Jet) : Formula :=
  let reciprocals := operands.foldl (fun sum a => add sum (div (integer 1) a)) (integer 0)
  (div (integer operands.length) reciprocals).slope

/-- The derivative of an operation. One with a number of operands that has no rule is
given the derivative zero. -/
def operationSlope : Operation → List Jet → Formula
  | .add, [a, b] => (add a b).slope
  | .sub, [a, b] => .operation .sub [a.slope, b.slope]
  | .mul, [a, b] => (mul a b).slope
  | .div, [a, b] => (div a b).slope
  | .hypot, [a, b] => hypotSlope a b
  | .hmean, [a, b] => hmeanSlope a b
  | .negate, [a] => .operation .negate [a.slope]
  | .arithMean, first :: rest => arithMeanSlope first rest
  | .geomMean, first :: rest => geomMeanSlope first rest
  | .harmMean, operands => harmMeanSlope operands
  | _, _ => .constant (.integer 0)

end Jet

namespace Operation

/-- An operation that its rule cannot differentiate, whatever the operands are. The
harmonic mean of no operands is a quotient like any other. -/
def slopeFailure? (op : Operation) (given : Nat) : Option Failure :=
  match op.arity with
  | .exactly count => if given = count then none else some (.operandCount op given)
  | .variadic =>
    if 1 ≤ given ∨ op = .harmMean then none
    else if op = .geomMean then some .divisionByZero
    else some (.operandCount op given)

/-- Puts operands into the order in which they are differentiated, or back. The second
operand of the binary harmonic mean comes before the first. -/
def slopeOrder {α : Type} (op : Operation) (operands : List α) : List α :=
  if op = .hmean then operands.reverse else operands

end Operation

namespace Formula

/-- An operand and its derivative, if it has one. -/
def jet (part : Formula × Except Failure Formula) : Except Failure Jet := do
  .ok ⟨part.1, ← part.2⟩

/-- The derivative of an operation from its operands and their derivatives. -/
def operationDerivative (op : Operation) (parts : List (Formula × Except Failure Formula)) :
    Except Failure Formula :=
  match op.slopeFailure? parts.length with
  | some failure => .error failure
  | none => do
    let jets ← (op.slopeOrder parts).mapM jet
    .ok (Jet.operationSlope op (op.slopeOrder jets))

/-- A formula with its derivative by the coordinate of the given name, which may be any
text. -/
def withDerivative (name : String) : Formula → Formula × Except Failure Formula :=
  fold (fun value => (.constant value, .ok (.constant (.integer 0))))
    (fun which =>
      (.coordinate which, .ok (.constant (.integer (if which.name = name then 1 else 0)))))
    fun op parts => (.operation op (parts.map Prod.fst), operationDerivative op parts)

/-- The derivative by the coordinate of the given name, which may be any text. -/
def derivative (name : String) (f : Formula) : Except Failure Formula :=
  (withDerivative name f).2

/-- What is reported before a formula is differentiated. -/
def derivativeNotice (name : String) (f : Formula) : String :=
  "Differentiating " ++ toString f.size ++ "-node expression by " ++ name

end Formula

end Formulas

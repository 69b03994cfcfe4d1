import Formulas.Arithmetic.Basic
import Formulas.Formula.Evaluation
/-! Algebraic expressions: sums and products of any number of terms, integer powers, and
roots of magnitudes. Every formula has an algebraic form in which subtraction adds a
multiple of minus one and division multiplies with a negative power. -/
namespace Formulas

inductive Algebraic where
  | constant (value : Constant)
  | coordinate (which : Coordinate)
  | sum (terms : List Algebraic)
  | product (factors : List Algebraic)
  | power (base : Algebraic) (exponent : Int)
  | root (degree : Nat) (radicand : Algebraic)

namespace Algebraic

def integer (n : Int) : Algebraic :=
  .constant (.integer n)

/-- One divided by an expression. -/
def inverse (a : Algebraic) : Algebraic :=
  .power a (-1)

/-- The algebraic form of an operation. Sums and products take any number of operands;
where an operation needs its first operands, those beyond them are passed over. -/
def ofOperation (op : Operation) (operands : List Algebraic) : Except Failure Algebraic :=
  match op, operands with
  | .add, terms => .ok (.sum terms)
  | .mul, factors => .ok (.product factors)
  | .sub, a :: b :: _ => .ok (.sum [a, .product [integer (-1), b]])
  | .div, a :: b :: _ => .ok (.product [a, inverse b])
  | .negate, a :: _ => .ok (.product [integer (-1), a])
  | .hypot, a :: b :: _ => .ok (.sum [.power a 2, .power b 2])
  | .hmean, a :: b :: _ => .ok (.product [integer 2, inverse (.sum [inverse a, inverse b])])
  | .arithMean, terms => .ok (.product [.sum terms, inverse (integer terms.length)])
  | .geomMean, factor :: rest =>
    .ok (.root (rest.length + 1) (rest.foldl (fun product a => .product [product, a]) factor))
  | .harmMean, terms =>
    .ok (.product [integer terms.length, inverse (.sum (terms.map inverse))])
  | op, operands => .error (.operandCount op operands.length)

/-- The algebraic form of a formula. -/
def ofFormula : Formula → Except Failure Algebraic :=
  Formula.fold (fun value => .ok (.constant value)) (fun which => .ok (.coordinate which))
    fun op results => do ofOperation op (← results.mapM id)

variable {α : Type} [Arithmetic α]

/-- An integer power by repeated multiplication; a negative one is a reciprocal. -/
def raise (a : α) (exponent : Int) : α :=
  let magnitude := Arithmetic.product (List.replicate exponent.natAbs a)
  if exponent < 0 then Arithmetic.reciprocal magnitude else magnitude

mutual

/-- The value of an expression, from the values of constants and coordinates. -/
def evaluate (constant : Constant → Except Failure α) (coordinate : Coordinate → Except Failure α) :
    Algebraic → Except Failure α
  | .constant value => constant value
  | .coordinate which => coordinate which
  | .sum terms => (evaluateAll constant coordinate terms).map Arithmetic.sum
  | .product factors => (evaluateAll constant coordinate factors).map Arithmetic.product
  | .power base exponent => (evaluate constant coordinate base).map (raise · exponent)
  | .root degree radicand => (evaluate constant coordinate radicand).map (Arithmetic.root degree)

/-- The values of expressions from left to right. -/
def evaluateAll (constant : Constant → Except Failure α)
    (coordinate : Coordinate → Except Failure α) : List Algebraic → Except Failure (List α)
  | [] => .ok []
  | a :: rest => do
    let value ← evaluate constant coordinate a
    let values ← evaluateAll constant coordinate rest
    .ok (value :: values)

end

end Algebraic

end Formulas

import Formulas.Formula.Evaluation
import Formulas.Workspace.Node
/-! The derivative of a node is made of new nodes. Operands that occur in it are copied. The
rule for a mean first makes a formula that holds the operands themselves and differentiates that. -/
namespace Formulas

/-- Makes nodes, unless something has no derivative. What has been made by then stays. -/
abbrev Making := ExceptT Failure (StateM Memory)

namespace Node

/-- A new integer constant. -/
def integer (n : Int) : Making Node :=
  liftM (make (.constant (.integer n)))

/-- A new operation over two nodes that are made before it, from left to right. -/
def pair (op : Operation) (left right : Making Node) : Making Node := do
  let a ← left
  let b ← right
  liftM (make (.operation op [a, b]))

end Node

/-- A node together with the making of its derivative. -/
structure Part where
  node : Node
  slope : Making Node

namespace Part

open Node

/-- New nodes for the formula of a part. -/
def copy (part : Part) : Making Node :=
  liftM part.node.copy

/-- A new constant. -/
def constant (value : Constant) : Making Part := do
  let node ← liftM (make (.constant value))
  return ⟨node, integer 0⟩

/-- A new operation that holds the nodes of two parts, with the rule for it. -/
def hold (op : Operation) (rule : Part → Part → Making Node) (a b : Part) : Making Part := do
  let node ← liftM (make (.operation op [a.node, b.node]))
  return ⟨node, rule a b⟩

def addSlope (a b : Part) : Making Node :=
  pair .add a.slope b.slope

def subSlope (a b : Part) : Making Node :=
  pair .sub a.slope b.slope

/-- The product rule. -/
def mulSlope (a b : Part) : Making Node :=
  pair .add (pair .mul a.slope b.copy) (pair .mul a.copy b.slope)

/-- The quotient rule. -/
def divSlope (a b : Part) : Making Node :=
  pair .div (pair .sub (pair .mul a.slope b.copy) (pair .mul a.copy b.slope))
    (pair .mul b.copy b.copy)

def negateSlope (a : Part) : Making Node := do
  let slope ← a.slope
  liftM (make (.operation .negate [slope]))

/-- Twice the sum of each operand times its derivative. -/
def hypotSlope (a b : Part) : Making Node :=
  pair .mul (integer 2) (pair .add (pair .mul a.copy a.slope) (pair .mul b.copy b.slope))

/-- The derivative of `2ab / (a + b)`. It begins with the derivative of the second operand. -/
def hmeanSlope (a b : Part) : Making Node :=
  pair .mul (integer 2)
    (pair .div
      (pair .add (pair .mul (pair .mul a.copy a.copy) b.slope)
        (pair .mul (pair .mul b.copy b.copy) a.slope))
      (pair .mul (pair .add a.copy b.copy) (pair .add a.copy b.copy)))

/-- The derivative of the sum that holds the operands, over their number. -/
def arithMeanSlope (first : Part) (rest : List Part) : Making Node := do
  let sum ← rest.foldlM (hold .add addSlope) first
  pair .div sum.slope (integer (rest.length + 1))

/-- The geometric mean of copies of the operands. -/
def copiedMean (operands : List Part) : Making Node := do
  let copies ← liftM (operands.mapM fun part => part.node.copy)
  liftM (make (.operation .geomMean copies))

/-- The power of the mean of copies with one factor for each operand but the first. -/
def copiedPower (first : Part) (rest : List Part) : Making Node := do
  let one ← integer 1
  rest.foldlM (fun power _ => pair .mul (pure power) (copiedMean (first :: rest))) one

/-- The product that holds the operands, with the share of each factor in front. -/
def heldProduct (first : Part) (rest : List Part) : Making Part := do
  let share ← constant (.real (Binary64.round false 1 (rest.length + 1)))
  let product ← rest.foldlM (hold .mul mulSlope) first
  hold .mul mulSlope share product

/-- The derivative of the product over the power, which is made first. -/
def geomMeanSlope (first : Part) (rest : List Part) : Making Node := do
  let power ← copiedPower first rest
  let product ← heldProduct first rest
  pair .div product.slope (pure power)

/-- A sum with the reciprocal of one operand more. -/
def addReciprocal (sum a : Part) : Making Part := do
  let one ← constant (.integer 1)
  let reciprocal ← hold .div divSlope one a
  hold .add addSlope sum reciprocal

/-- The number of operands over the sum of their reciprocals, which holds the operands. -/
def heldQuotient (operands : List Part) : Making Part := do
  let zero ← constant (.integer 0)
  let sum ← operands.foldlM addReciprocal zero
  let count ← constant (.integer operands.length)
  hold .div divSlope count sum

def harmMeanSlope (operands : List Part) : Making Node := do
  let quotient ← heldQuotient operands
  quotient.slope

/-- The derivative of an operation. -/
def operationSlope : Operation → List Part → Making Node
  | .add, [a, b] => addSlope a b
  | .sub, [a, b] => subSlope a b
  | .mul, [a, b] => mulSlope a b
  | .div, [a, b] => divSlope a b
  | .negate, [a] => negateSlope a
  | .hypot, [a, b] => hypotSlope a b
  | .hmean, [a, b] => hmeanSlope a b
  | .arithMean, first :: rest => arithMeanSlope first rest
  | .geomMean, first :: rest => geomMeanSlope first rest
  | .geomMean, [] => throw .divisionByZero
  | .harmMean, operands => harmMeanSlope operands
  | op, operands => throw (.operandCount op operands.length)

end Part

namespace Node

mutual

/-- A node with the derivative by the coordinate of the given name, which may be any text. -/
def part (name : String) : Node → Part
  | .constant value address => ⟨.constant value address, integer 0⟩
  | .coordinate which address =>
    ⟨.coordinate which address, integer (if which.name = name then 1 else 0)⟩
  | .operation op operands address =>
    ⟨.operation op operands address, Part.operationSlope op (parts name operands)⟩

/-- The nodes of a list with their derivatives. -/
def parts (name : String) : List Node → List Part
  | [] => []
  | node :: rest => part name node :: parts name rest

end

/-- Makes the derivative by the coordinate of the given name, which may be any text. -/
def differentiate (name : String) (node : Node) : Making Node :=
  (node.part name).slope

end Node

end Formulas

import Formulas.Formula.Basic
/-! The nodes of a formula in two orders, each as a worklist loop, and what can be
collected from them. -/
namespace Formulas

open scoped Natural

/-- Level by level, or each node before its operands. -/
inductive Order where
  | breadthFirst
  | depthFirst
  deriving DecidableEq

namespace Order

def name : Order → String
  | .breadthFirst => "breadth_first"
  | .depthFirst => "depth_first"

/-- The order of a name. -/
def ofName? (name : String) : Option Order :=
  [breadthFirst, depthFirst].find? fun order => order.name = name

/-- What is said of a name that no order has. -/
def unknownMessage (name : String) : String :=
  "Invalid traversal_order: " ++ name

end Order

namespace Formula

/-- The number of nodes of all formulas that wait for a visit. -/
def totalSize (formulas : List Formula) : Nat :=
  (formulas.map size).sum

theorem totalSize_cons (f : Formula) (rest : List Formula) :
    totalSize (f :: rest) = f.size + totalSize rest := rfl

theorem totalSize_append (front back : List Formula) :
    totalSize (front ++ back) = totalSize front + totalSize back := by
  simp [totalSize]

theorem size_eq_operands (f : Formula) : f.size = 1 + totalSize f.operands := by
  cases f with
  | constant value => rfl
  | coordinate which => rfl
  | operation op operands => exact size_operation op operands

/-- Visits the first formula of a queue and puts its operands at the end. -/
def visitQueue : List Formula → List Formula
  | [] => []
  | f :: queue => f :: visitQueue (queue ++ f.operands)
termination_by queue => totalSize queue
decreasing_by
  rw [totalSize_append, totalSize_cons, size_eq_operands f]
  omega

/-- Visits the formula on top of a stack and puts its operands in its place. -/
def visitStack : List Formula → List Formula
  | [] => []
  | f :: stack => f :: visitStack (f.operands ++ stack)
termination_by stack => totalSize stack
decreasing_by
  rw [totalSize_append, totalSize_cons, size_eq_operands f]
  omega

/-- All nodes in the given order, each as the formula below it. -/
def nodes (order : Order) (f : Formula) : List Formula :=
  match order with
  | .breadthFirst => visitQueue [f]
  | .depthFirst => visitStack [f]

/-- The coordinates that occur, in the order of their names. -/
def coordinates (f : Formula) : List Coordinate :=
  Coordinate.all.filter fun which => (f.nodes .breadthFirst).contains (.coordinate which)

/-- The constants from left to right. -/
def constants (f : Formula) : List Constant :=
  (f.nodes .depthFirst).filterMap fun node =>
    match node with
    | .constant value => some value
    | _ => none

/-- The nodes that are operations, each before its operands. -/
def operations (f : Formula) : List Formula :=
  (f.nodes .depthFirst).filter isOperation

/-- The kinds of the nodes that are operations, each before those of its operands. -/
def kinds (f : Formula) : List Operation :=
  (f.nodes .depthFirst).filterMap fun node =>
    match node with
    | .operation op _ => some op
    | _ => none

/-- How often each kind of operation occurs, in the order of first occurrence. -/
def countOperations (f : Formula) : List (Operation × Nat) :=
  f.kinds.eraseDups.map fun op => (op, f.kinds.count op)

end Formula

end Formulas

import Formulas.Arithmetic.Machine
import Formulas.Formula.Basic
/-! Values of formulas. Operands are evaluated from left to right before their number is
checked, so the first failure is that of the first bad node from left to right with
operands before operations. No values of operands are ever a failure.

The depth of a formula has no limit here. An evaluation that recurses once for every level of
nesting on a stack of limited size fails on a formula that is nested too deeply for it, and that
failure has no counterpart, unlike the one of an integer literal with too many digits. -/
namespace Formulas

/-- Why a formula has no value or no derivative. -/
inductive Failure where
  | operandCount (op : Operation) (given : Nat)
  | divisionByZero
  | integerTooLarge
  | missingCoordinate (which : Coordinate)
  | excessCoordinates (given : Nat)
  deriving DecidableEq

/-- How constants and operations are given values. A constant may be too large for one. -/
structure Interpretation (α : Type) where
  constant : Constant → Option α
  operation : Operation → List α → α

namespace Interpretation

variable {α : Type}

/-- The value of a constant. -/
def constantValue (i : Interpretation α) (value : Constant) : Except Failure α :=
  match i.constant value with
  | some a => .ok a
  | none => .error .integerTooLarge

/-- The coordinate of a point. -/
def coordinateValue (point : List α) (which : Coordinate) : Except Failure α :=
  match point[which.index]? with
  | some a => .ok a
  | none => .error (.missingCoordinate which)

/-- The value of an operation whose operands have been evaluated. -/
def operationValue (i : Interpretation α) (op : Operation) (operands : List α) :
    Except Failure α :=
  if op.admits operands.length then .ok (i.operation op operands)
  else .error (.operandCount op operands.length)

/-- The value of a formula at a point. -/
def evaluate (i : Interpretation α) (point : List α) : Formula → Except Failure α :=
  Formula.fold i.constantValue (coordinateValue point) fun op results => do
    i.operationValue op (← results.mapM id)

/-- Arithmetic on constants that become double precision numbers first. -/
def machine : Interpretation Float where
  constant value := value.toBinary64?.map Binary64.toFloat
  operation := Arithmetic.combine

end Interpretation

/-- The value at a point of at most three coordinates; those that are missing are zero. -/
def Formula.value (f : Formula) (point : List Float) : Except Failure Float :=
  if Coordinate.all.length < point.length then .error (.excessCoordinates point.length)
  else
    let missing := Coordinate.all.length - point.length
    Interpretation.machine.evaluate (point ++ List.replicate missing 0.0) f

end Formulas

import Formulas.Formula.Derivative
/-! Central differences, and whether a derivative comes close to one. -/
namespace Formulas

/-- Why there is no difference. -/
inductive DifferenceFault where
  | unknownCoordinate (name : String)
  | excessCoordinates (given : Nat)
  | zeroStep
  | failure (what : Failure)

open Arithmetic

/-- A point with zeros for the coordinates that it lacks. -/
def completePoint {α : Type} [Arithmetic α] (point : List α) :
    Except DifferenceFault (List α) :=
  if Coordinate.all.length < point.length then .error (.excessCoordinates point.length)
  else .ok (point ++ List.replicate (Coordinate.all.length - point.length) (ofNat 0))

/-- The difference of the values one step forward and one step backward along a coordinate,
divided by the length of two steps. -/
def Interpretation.centralDifference {α : Type} [Arithmetic α] [BEq α] (i : Interpretation α)
    (f : Formula) (name : String) (point : List α) (h : α) : Except DifferenceFault α := do
  match Coordinate.ofName? name with
  | none => .error (.unknownCoordinate name)
  | some along =>
    let base ← completePoint point
    let step := Coordinate.all.map fun which => if which = along then h else ofNat 0
    let forward ← (i.evaluate (List.zipWith add base step) f).mapError .failure
    let backward ← (i.evaluate (List.zipWith sub base step) f).mapError .failure
    let width := mul (ofNat 2) h
    if width == ofNat 0 then .error .zeroStep
    else .ok (div (sub forward backward) width)

/-- The first number lies within the tolerances of the second one, which is finite, or the
two are equal. -/
def isClose (rtol atol a b : Float) : Bool :=
  ((a - b).abs ≤ atol + rtol * b.abs && b.isFinite) || a == b

/-- The step of the difference that a derivative is compared with. -/
def comparisonStep : Float := 1e-6

namespace Formula

/-- The central difference of a formula. -/
def difference (f : Formula) (name : String) (point : List Float) (h : Float) :
    Except DifferenceFault Float :=
  Interpretation.machine.centralDifference f name point h

/-- The value of the derivative at the point is close to the central difference. The
derivative is found by the rules unless it is given. -/
def derivativeMatches (f : Formula) (name : String) (point : List Float) (rtol atol : Float)
    (given? : Option Formula) : Except DifferenceFault Bool := do
  let slope ←
    match given? with
    | some slope => .ok slope
    | none => (f.derivative name).mapError .failure
  let point ← completePoint point
  let symbolic ← (Interpretation.machine.evaluate point slope).mapError .failure
  let numeric ← f.difference name point comparisonStep
  .ok (isClose rtol atol symbolic numeric)

end Formula

end Formulas

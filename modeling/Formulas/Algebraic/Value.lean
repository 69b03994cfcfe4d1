import Formulas.Algebraic.Basic
import Formulas.Arithmetic.Dual
import Formulas.Arithmetic.Extended
import Formulas.Formula.Rendering
import Formulas.Formula.Traversal
import Formulas.Grid
/-! What is asked of the algebraic form of a formula: its exact value and rate of change at
rational points, its text, and samples in double precision. The last two are up to a computer
algebra system. -/
namespace Formulas

/-- The exact value of a constant, as an extended rational number. -/
def Constant.toExtended : Constant → Extended
  | .integer n => .finite n
  | .real x => if x.isFinite then .finite x.toRat else .undefined

/-- What a computer algebra system makes of an algebraic expression: its text, and the function of
the coordinates that is compiled from the text. How the system simplifies an expression before it
writes it, and what it can write, is left open. -/
structure AlgebraSystem where
  text? : Algebraic → Option String
  compile? : Algebraic → Option (List Float → Except Failure Float)

/-- Why the algebraic form of a formula has no text. -/
inductive WritingFault where
  | failure (what : Failure)
  | unwritable

namespace Formula

/-- The texts of a formula in all notations, and that of its algebraic form. -/
def description (system : AlgebraSystem) (f : Formula) :
    Except WritingFault (List (Notation × String) × String) := do
  let texts ← (Notation.all.mapM fun form => (f.text? form).map (form, ·)).elim
    (.error .unwritable) .ok
  let form ← (Algebraic.ofFormula f).mapError .failure
  let text ← (system.text? form).elim (.error .unwritable) .ok
  .ok (texts, text)

/-- The exact value of the algebraic form at a rational point. -/
def exactValue (f : Formula) (point : List Rat) : Except Failure Extended := do
  let form ← Algebraic.ofFormula f
  form.evaluate (fun value => .ok value.toExtended)
    (Interpretation.coordinateValue (point.map .finite))

/-- The exact rate of change of the algebraic form along the coordinate of the given name.
A formula without coordinates does not change. -/
def exactSlope (f : Formula) (name : String) (point : List Rat) : Except Failure Extended := do
  let form ← Algebraic.ofFormula f
  if f.coordinates.isEmpty then .ok (.finite 0)
  else
    let seeds := List.zipWith (fun (which : Coordinate) value =>
      Dual.mk (Extended.finite value) (.finite (if which.name = name then 1 else 0)))
      Coordinate.all point
    let value ← form.evaluate (fun value => .ok (Dual.mk value.toExtended (.finite 0)))
      (Interpretation.coordinateValue seeds)
    .ok (Dual.slope value)

/-- The value of the function that is compiled from the algebraic form, for each row of a matrix.
Missing columns hold zeros and columns beyond the coordinates are passed over. An array of more
axes has values only if no coordinate that occurs has a column in it. -/
def sampleRows (system : AlgebraSystem) (f : Formula) (array : Nested Float) :
    Except RowsFault (List Float) := do
  match Grid.matrixRows? array with
  | none => .error .shapeless
  | some (shape, rows) =>
    let form ← (Algebraic.ofFormula f).mapError .failure
    let value ← (system.compile? form).elim (.error .unwritable) .ok
    let width := shape.getD 1 0
    let rows :=
      if shape.length ≤ 2 then rows else List.replicate (shape.getD 0 0) []
    if 2 < shape.length ∧ f.coordinates.any (·.index < width) then .error .misshapen
    else
      rows.mapM fun row =>
        (value ((Grid.pad 0.0 row).take Coordinate.all.length)).mapError .failure

end Formula

end Formulas

import Formulas.Formula.Evaluation
/-! Values of formulas at many points at once. A grid holds its points in row-major order;
the last axis of the array that it came from holds the coordinates. Constants, coordinates
and operations are evaluated for all points together. -/
namespace Formulas

/-- Numbers in lists of lists, to any depth. -/
inductive Nested (α : Type) where
  | entry (value : α)
  | list (items : List (Nested α))

namespace Nested

variable {α : Type}

instance : Inhabited (Nested α) := ⟨.list []⟩

/-- The common shape of lists that all have the same shape, or nothing. -/
def commonShape? : List (Option (List Nat)) → Option (List Nat)
  | [] => some []
  | none :: _ => none
  | some shape :: rest => if rest.all (· = some shape) then some shape else none

mutual

/-- The lengths along all axes, if the lists at each depth have the same length. -/
def shape? : Nested α → Option (List Nat)
  | .entry _ => some []
  | .list items => (commonShape? (shapes items)).map (items.length :: ·)

/-- The shapes of the items of a list. -/
def shapes : List (Nested α) → List (Option (List Nat))
  | [] => []
  | item :: rest => shape? item :: shapes rest

end

/-- The greatest number of axes of an array. -/
def axisLimit : Nat := 64

/-- The lengths along the axes of an array: lists of a common shape that are not nested too
deeply. -/
def axes? (nested : Nested α) : Option (List Nat) :=
  nested.shape?.filter fun shape => shape.length ≤ axisLimit

/-- The number itself, if it is one. -/
def entry? : Nested α → Option α
  | .entry value => some value
  | .list _ => none

mutual

/-- The innermost lists, in order. -/
def rows : Nested α → List (List α)
  | .entry _ => []
  | .list items =>
    match items.mapM entry? with
    | some row => [row]
    | none => allRows items

/-- The innermost lists of the items of a list, in order. -/
def allRows : List (Nested α) → List (List α)
  | [] => []
  | item :: rest => rows item ++ allRows rest

end

end Nested

/-- Points in row-major order; their number is the product of the shape. -/
structure Grid (α : Type) where
  shape : List Nat
  points : List (List α)

namespace Grid

variable {α : Type}

/-- The grid of an array. A single number is one point without coordinates. -/
def ofNested? (array : Nested α) : Option (Grid α) :=
  match array with
  | .entry _ => some ⟨[], [[]]⟩
  | .list _ => array.axes?.map fun shape => ⟨shape.dropLast, array.rows⟩

/-- One coordinate of all points. -/
def column (grid : Grid α) (which : Coordinate) : Except Failure (List α) :=
  match grid.points.mapM fun point => point[which.index]? with
  | some values => .ok values
  | none => .error (.missingCoordinate which)

/-- The values of all operands at each point, from the values of each at all points. -/
def transpose (count : Nat) (columns : List (List α)) : List (List α) :=
  columns.foldr (List.zipWith List.cons) (List.replicate count [])

end Grid

namespace Interpretation

variable {α : Type}

/-- An operation on the values of its operands at all points. -/
def operationColumn (i : Interpretation α) (count : Nat) (op : Operation)
    (columns : List (List α)) : Except Failure (List α) :=
  if op.admits columns.length then .ok ((Grid.transpose count columns).map (i.operation op))
  else .error (.operandCount op columns.length)

/-- The values of a formula at all points of a grid, in their order. -/
def evaluateGrid (i : Interpretation α) (grid : Grid α) : Formula → Except Failure (List α) :=
  Formula.fold
    (fun value => (i.constantValue value).map (List.replicate grid.points.length))
    grid.column
    fun op results => do i.operationColumn grid.points.length op (← results.mapM id)

end Interpretation

/-- Why an array has no values, one for each of its rows. -/
inductive RowsFault where
  | shapeless
  | tooManyColumns (given : Nat)
  | misshapen
  | unwritable
  | failure (what : Failure)

/-- The wording of a fault in the columns; the others have none. -/
def RowsFault.message? : RowsFault → Option String
  | .tooManyColumns given =>
    some ("Expected at most " ++ toString Coordinate.all.length ++ " columns, got " ++
      toString given)
  | _ => none

namespace Grid

variable {α : Type}

/-- A point with zeros for the coordinates that it lacks. -/
def pad (zero : α) (point : List α) : List α :=
  point ++ List.replicate (Coordinate.all.length - point.length) zero

/-- The matrix of an array: a number is one row of one column, and a list is one row.
Whatever is not a matrix has at least three axes. -/
def matrixRows? (array : Nested α) : Option (List Nat × List (List α)) :=
  match array with
  | .entry value => some ([1, 1], [[value]])
  | .list _ =>
    array.axes?.map fun shape =>
      match shape with
      | [width] => ([1, width], array.rows)
      | _ => (shape, array.rows)

end Grid

open Grid in
/-- The value of a formula for each row of a matrix of at most three columns. Columns that
are missing hold zeros. An array of more axes is evaluated and then refused. -/
def Interpretation.evaluateRows {α : Type} (i : Interpretation α) (zero : α)
    (array : Nested α) (f : Formula) : Except RowsFault (List α) :=
  match matrixRows? array with
  | none => .error .shapeless
  | some (shape, rows) =>
    let width := shape.getD 1 0
    if Coordinate.all.length < width then .error (.tooManyColumns width)
    else if shape.length ≤ 2 then
      (i.evaluateGrid ⟨[rows.length], rows.map (pad zero)⟩ f).mapError .failure
    else if width < Coordinate.all.length then .error .misshapen
    else
      match i.evaluateGrid ⟨shape.dropLast, rows⟩ f with
      | .ok _ => .error .misshapen
      | .error what => .error (.failure what)

end Formulas

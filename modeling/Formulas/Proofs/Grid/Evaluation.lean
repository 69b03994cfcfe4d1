import Formulas.Proofs.Formula.Evaluation
import Formulas.Proofs.Grid.Shape

/-! Values of formulas at many points together are the values at each of the points. All
points of an array have the same number of coordinates, so a formula has values at all of
them or the same failure at all of them. -/
namespace Formulas

namespace Result

variable {ε π β : Type}

/-- A result for all points together is the result at each of them: one value for each
point in their order, or the failure that all points have. -/
def Pointwise (value : π → Except ε β) (points : List π) : Except ε (List β) → Prop
  | .ok values => List.Forall₂ (fun point b => value point = .ok b) points values
  | .error e => ∀ point ∈ points, value point = .error e

theorem pointwise_const (result : Except ε β) (points : List π) :
    Pointwise (fun _ => result) points (result.map (List.replicate points.length)) := by
  cases result with
  | error e => exact fun _ _ => rfl
  | ok b =>
      induction points with
      | nil => exact .nil
      | cons point rest ih => exact .cons rfl ih

theorem pointwise_map {ρ : Type} (value : ρ → Except ε β) {replace : π → ρ} {points : List π}
    {result : Except ε (List β)} :
    Pointwise value (points.map replace) result ↔
      Pointwise (fun point => value (replace point)) points result := by
  cases result with
  | error e => exact List.forall_mem_map
  | ok values => exact List.forall₂_map_left_iff

/-- Lists of optional values have all of them, or lack that of some member. -/
theorem mapM_some_cases (value? : π → Option β) (points : List π) :
    (∃ values, points.mapM value? = some values ∧
        List.Forall₂ (fun point b => value? point = some b) points values) ∨
      points.mapM value? = none ∧ ∃ point ∈ points, value? point = none := by
  induction points with
  | nil => exact .inl ⟨[], rfl, .nil⟩
  | cons point rest ih =>
      cases hFirst : value? point with
      | none => exact .inr ⟨by simp [hFirst], point, List.mem_cons_self .., hFirst⟩
      | some b =>
          rcases ih with ⟨values, hValues, hAll⟩ | ⟨hNone, other, hOther, hMissing⟩
          · exact .inl ⟨b :: values, by simp [hFirst, hValues], .cons hFirst hAll⟩
          · exact .inr ⟨by simp [hFirst, hNone], other, List.mem_cons_of_mem _ hOther, hMissing⟩

/-- Two results are combined for all points together as they are at each point. The failure
of the first one comes first. -/
theorem pointwise_zipWith {γ δ : Type} (combine : β → γ → δ) {points : List π}
    {first : π → Except ε β} {second : π → Except ε γ} {firsts : Except ε (List β)}
    {seconds : Except ε (List γ)} (hFirst : Pointwise first points firsts)
    (hSecond : Pointwise second points seconds) :
    Pointwise (fun point => first point >>= fun b => (second point).map (combine b)) points
      (firsts >>= fun bs => seconds.map (List.zipWith combine bs)) := by
  cases firsts with
  | error e =>
      intro point hPoint
      simp only [hFirst point hPoint, error_bind]
  | ok bs =>
      cases seconds with
      | error e =>
          intro point hPoint
          obtain ⟨b, hb⟩ := exists_of_forall₂ hFirst point hPoint
          simp only [hb, ok_bind, hSecond point hPoint, map_error]
      | ok cs =>
          simp only [Pointwise, ok_bind, map_ok] at hFirst hSecond ⊢
          induction hFirst generalizing cs with
          | nil => exact .nil
          | cons hb _ ih =>
              obtain ⟨c, rest, hc, hRest, rfl⟩ := List.forall₂_cons_left_iff.mp hSecond
              refine .cons ?_ (ih rest hRest)
              simp only [hb, hc, ok_bind, map_ok]

/-- The values of several functions at each point, from those of each function at all points. -/
theorem pointwise_mapM {functions : List (π → Except ε β)} {points : List π}
    {results : List (Except ε (List β))}
    (hResults : List.Forall₂ (Pointwise · points) functions results) :
    Pointwise (fun point => (functions.map (· point)).mapM id) points
      ((results.mapM id).map (Grid.transpose points.length)) := by
  induction hResults with
  | nil => exact pointwise_const (.ok []) points
  | @cons value result functions results hFirst hRest ih =>
      -- The other columns are made into rows first, and this one is put in front of the rows.
      have hColumns : ((result :: results).mapM id).map (Grid.transpose points.length) =
          result >>= fun column => ((results.mapM id).map (Grid.transpose points.length)).map
            (List.zipWith List.cons column) := by
        rw [List.mapM_cons]
        cases result with
        | error e => rfl
        | ok column => cases results.mapM id <;> rfl
      rw [hColumns]
      simp only [List.map_cons, List.mapM_cons]
      exact pointwise_zipWith List.cons hFirst ih

end Result

namespace Interpretation

variable {α : Type} {i : Interpretation α}

theorem evaluateGrid_operation (grid : Grid α) (op : Operation) (operands : List Formula) :
    i.evaluateGrid grid (.operation op operands) =
      (operands.map (i.evaluateGrid grid)).mapM id >>=
        i.operationColumn grid.points.length op := by
  rw [evaluateGrid, Formula.fold_operation]

/-- A coordinate that one point lacks is lacking everywhere. -/
theorem pointwise_column {grid : Grid α} {k : Nat}
    (hPoints : ∀ point ∈ grid.points, point.length = k) (which : Coordinate) :
    Result.Pointwise (coordinateValue · which) grid.points (grid.column which) := by
  rw [Grid.column]
  rcases Result.mapM_some_cases (fun point : List α => point[which.index]?) grid.points with
    ⟨values, hValues, hAll⟩ | ⟨hNone, point, hPoint, hMissing⟩
  · rw [hValues]
    exact hAll.imp fun point a ha => by simp only [coordinateValue, ha]
  · rw [hNone]
    intro other hOther
    have hFew : point.length ≤ which.index := List.getElem?_eq_none_iff.mp hMissing
    have hLacks : other[which.index]? = none := by
      rw [List.getElem?_eq_none_iff, hPoints other hOther, ← hPoints point hPoint]
      exact hFew
    simp only [coordinateValue, hLacks]

/-- Operations see the values of their operands at each point. -/
theorem pointwise_operation (op : Operation) {functions : List (List α → Except Failure α)}
    {points : List (List α)} {results : List (Except Failure (List α))}
    (hResults : List.Forall₂ (Result.Pointwise · points) functions results) :
    Result.Pointwise (fun point => (functions.map (· point)).mapM id >>= i.operationValue op)
      points (results.mapM id >>= i.operationColumn points.length op) := by
  have hAll := Result.pointwise_mapM hResults
  cases hColumns : results.mapM id with
  | error e =>
      rw [hColumns] at hAll
      intro point hPoint
      simp only [hAll point hPoint, Result.error_bind]
  | ok columns =>
      have hCount : columns.length = functions.length := by
        rw [hResults.length_eq]
        exact (Result.mapM_eq_ok.mp hColumns).length_eq.symm
      have hRows {point : List α} {row : List α}
          (hRow : (functions.map (· point)).mapM id = .ok row) : row.length = columns.length := by
        rw [hCount, ← (Result.mapM_eq_ok.mp hRow).length_eq, List.length_map]
      rw [hColumns] at hAll
      rw [Result.ok_bind, operationColumn]
      by_cases hAdmits : op.admits columns.length = true
      · rw [if_pos hAdmits]
        refine List.forall₂_map_right_iff.mpr (hAll.imp fun point row hRow => ?_)
        simp only [hRow, Result.ok_bind, operationValue, hRows hRow, if_pos hAdmits]
      · rw [if_neg hAdmits]
        intro point hPoint
        obtain ⟨row, hRow⟩ := Result.exists_of_forall₂ hAll point hPoint
        simp only [hRow, Result.ok_bind, operationValue, hRows hRow, if_neg hAdmits]

/-- The values of a formula at all points of the same length are its values at each point. -/
theorem pointwise_evaluateGrid (i : Interpretation α) {grid : Grid α} {k : Nat}
    (hPoints : ∀ point ∈ grid.points, point.length = k) (f : Formula) :
    Result.Pointwise (i.evaluate · f) grid.points (i.evaluateGrid grid f) := by
  induction f with
  | constant value => exact Result.pointwise_const (i.constantValue value) grid.points
  | coordinate which => exact pointwise_column hPoints which
  | operation op operands ih =>
      have hResults : List.Forall₂ (Result.Pointwise · grid.points)
          (operands.map fun f point => i.evaluate point f)
          (operands.map (i.evaluateGrid grid)) := by
        rw [List.forall₂_map_left_iff, List.forall₂_map_right_iff]
        exact List.forall₂_same.mpr ih
      have hOperation := pointwise_operation (i := i) op hResults
      rw [evaluateGrid_operation]
      simp only [evaluate_operation]
      simpa only [List.map_map, Function.comp_def] using hOperation

end Interpretation

namespace Nested

variable {ε α β : Type}

/-- A result holds the values of a function at the points of an array with the given lengths
along all axes but the last one, in row-major order, or it is the failure that the function
has at all points. -/
def Tabulates (array : Nested α) (shape : List Nat) (value : List α → Except ε β) :
    Except ε (List β) → Prop
  | .ok values => values.length = shape.prod ∧ ∀ index, IsIndex index shape →
      ∃ point b, array.point? index = some point ∧ value point = .ok b ∧
        values[position shape index]? = some b
  | .error e => ∀ index, IsIndex index shape →
      ∃ point, array.point? index = some point ∧ value point = .error e

/-- What is computed for the innermost lists together is a table of the array. -/
theorem tabulates_of_pointwise {array : Nested α} {shape : List Nat} {k : Nat}
    (hShape : array.shape? = some (shape ++ [k])) {value : List α → Except ε β}
    {result : Except ε (List β)} (hRows : Result.Pointwise value array.rows result) :
    array.Tabulates shape value result := by
  obtain ⟨hCount, -, hPoints⟩ := rows_at hShape
  cases result with
  | error e =>
      intro index hIndex
      obtain ⟨point, hPoint, -, hRow⟩ := hPoints index hIndex
      exact ⟨point, hPoint, hRows point (List.mem_of_getElem? hRow)⟩
  | ok values =>
      have hLength : values.length = shape.prod := hRows.length_eq.symm.trans hCount
      refine ⟨hLength, fun index hIndex => ?_⟩
      obtain ⟨point, hPoint, -, hRow⟩ := hPoints index hIndex
      have hPosition : position shape index < values.length := hLength ▸ position_lt hIndex
      obtain ⟨hRowPosition, rfl⟩ := List.getElem?_eq_some_iff.mp hRow
      exact ⟨_, values[position shape index], hPoint, hRows.get hRowPosition hPosition,
        List.getElem?_eq_getElem hPosition⟩

theorem shape?_of_axes? {array : Nested α} {shape : List Nat}
    (hAxes : array.axes? = some shape) : array.shape? = some shape :=
  (Option.filter_eq_some_iff.mp hAxes).1

/-- An array of at least one axis is no number. -/
theorem exists_list_of_axes? {array : Nested α} {shape : List Nat} {k : Nat}
    (hAxes : array.axes? = some (shape ++ [k])) : ∃ items, array = .list items := by
  cases array with
  | entry value =>
      have hNil : [] = shape ++ [k] := Option.some.inj (shape?_of_axes? hAxes)
      simp at hNil
  | list items => exact ⟨items, rfl⟩

end Nested

/-- A point of few coordinates is padded to one with all of them. -/
theorem Grid.length_pad {α : Type} {zero : α} {point : List α}
    (hFew : point.length ≤ Coordinate.all.length) :
    (pad zero point).length = Coordinate.all.length := by
  rw [pad, List.length_append, List.length_replicate, Nat.add_sub_cancel' hFew]

namespace Interpretation

variable {α : Type}

open Grid in
/-- The rows of a matrix of few columns are evaluated together after padding. -/
theorem evaluateRows_matrix (i : Interpretation α) (zero : α) {array : Nested α} {n k : Nat}
    (hAxes : array.axes? = some [n, k]) (hFew : k ≤ Coordinate.all.length) (f : Formula) :
    i.evaluateRows zero array f =
      (i.evaluateGrid ⟨[array.rows.length], array.rows.map (pad zero)⟩ f).mapError .failure := by
  have hLast : array.axes? = some ([n] ++ [k]) := hAxes
  obtain ⟨items, rfl⟩ := Nested.exists_list_of_axes? hLast
  have hRows : matrixRows? (.list items) = some ([n, k], Nested.rows (.list items)) := by
    rw [matrixRows?, hAxes, Option.map_some]
  rw [evaluateRows, hRows]
  exact (if_neg (Nat.not_lt.mpr hFew)).trans (if_pos (by simp))

/-- Evaluation of an array is evaluation at its points, whatever the operations do and
whatever numbers of operands they have: the result has the shape of the array without its
last axis and holds the value at each point, or there is one failure, and all points have
it. Likewise the rows of a matrix of few columns have the values of the padded rows. -/
theorem evaluateGrid_tabulates (i : Interpretation α) (f : Formula) (array : Nested α) :
    (∀ shape k, array.axes? = some (shape ++ [k]) →
      (0 ∉ shape ∧ ∀ index, Nested.IsIndex index shape →
        ∃ point, array.point? index = some point ∧ point.length = k) ∧
      ∃ points, Grid.ofNested? array = some ⟨shape, points⟩ ∧
        array.Tabulates shape (i.evaluate · f) (i.evaluateGrid ⟨shape, points⟩ f)) ∧
    ∀ zero n k, array.axes? = some [n, k] → k ≤ Coordinate.all.length →
      ∃ result, i.evaluateRows zero array f = result.mapError .failure ∧
        array.Tabulates [n] (fun row => i.evaluate (Grid.pad zero row) f) result := by
  constructor
  · intro shape k hAxes
    have hShape := Nested.shape?_of_axes? hAxes
    obtain ⟨-, hRows, hPoints⟩ := Nested.rows_at hShape
    refine ⟨⟨Nested.zero_not_mem_of_shape hShape, fun index hIndex => ?_⟩, array.rows, ?_, ?_⟩
    · obtain ⟨point, hPoint, hLength, -⟩ := hPoints index hIndex
      exact ⟨point, hPoint, hLength⟩
    · obtain ⟨items, rfl⟩ := Nested.exists_list_of_axes? hAxes
      rw [Grid.ofNested?, hAxes, Option.map_some, List.dropLast_concat]
    · exact Nested.tabulates_of_pointwise hShape (pointwise_evaluateGrid i hRows f)
  · intro zero n k hAxes hFew
    have hShape : array.shape? = some ([n] ++ [k]) := Nested.shape?_of_axes? hAxes
    obtain ⟨-, hRows, -⟩ := Nested.rows_at hShape
    have hPadded : ∀ row ∈ array.rows.map (Grid.pad zero), row.length = Coordinate.all.length :=
      List.forall_mem_map.mpr fun row hRow => Grid.length_pad ((hRows row hRow).trans_le hFew)
    refine ⟨_, evaluateRows_matrix i zero hAxes hFew f, Nested.tabulates_of_pointwise hShape ?_⟩
    exact (Result.pointwise_map (i.evaluate · f)).mp (pointwise_evaluateGrid i hPadded f)

/-- A sum over an array of three axes, a coordinate that its points lack, and a matrix of two
columns that is padded for it. -/
theorem evaluateGrid_tabulates_cube :
    let row (a b : Float) : Nested Float := .list [.entry a, .entry b]
    let matrix : Nested Float := .list [row 1 2, row 3 4]
    let cube : Nested Float := .list [matrix, .list [row 5 6, row 7 8]]
    let sum : Formula := .operation .add [.coordinate .x, .coordinate .y]
    let beyond : Formula := .operation .mul [.coordinate .z, .coordinate .x]
    (cube.axes? = some ([2, 2] ++ [2]) ∧ matrix.axes? = some [2, 2] ∧
        2 ≤ Coordinate.all.length) ∧
      cube.Tabulates [2, 2] (Interpretation.machine.evaluate · sum)
        (Interpretation.machine.evaluateGrid ⟨[2, 2], cube.rows⟩ sum) ∧
      cube.Tabulates [2, 2] (Interpretation.machine.evaluate · beyond)
        (Interpretation.machine.evaluateGrid ⟨[2, 2], cube.rows⟩ beyond) ∧
      ∃ result, Interpretation.machine.evaluateRows 0.0 matrix beyond =
          result.mapError .failure ∧
        matrix.Tabulates [2] (fun row => Interpretation.machine.evaluate (Grid.pad 0.0 row) beyond)
          result := by
  intro row matrix cube sum beyond
  have hCube : cube.axes? = some ([2, 2] ++ [2]) := rfl
  have hMatrix : matrix.axes? = some [2, 2] := rfl
  have hFew : 2 ≤ Coordinate.all.length := by decide
  obtain ⟨-, points, hPoints, hSum⟩ :=
    (evaluateGrid_tabulates Interpretation.machine sum cube).1 [2, 2] 2 hCube
  obtain ⟨-, others, hOthers, hBeyond⟩ :=
    (evaluateGrid_tabulates Interpretation.machine beyond cube).1 [2, 2] 2 hCube
  obtain rfl : cube.rows = points := congrArg Grid.points (Option.some.inj hPoints)
  obtain rfl : cube.rows = others := congrArg Grid.points (Option.some.inj hOthers)
  exact ⟨⟨hCube, hMatrix, hFew⟩, hSum, hBeyond,
    (evaluateGrid_tabulates Interpretation.machine beyond matrix).2 0.0 2 2 hMatrix hFew⟩

end Interpretation

end Formulas

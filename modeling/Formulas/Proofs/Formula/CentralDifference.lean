import Formulas.Formula.Difference
import Formulas.Proofs.Formula.Degree
import Formulas.Proofs.Grid.Evaluation

/-! Central differences in exact arithmetic. The values one step forward and one step backward
differ by two steps times the slope when the formula is a polynomial of degree two at most along
the coordinate. -/
namespace Formulas

open Polynomial
open scoped DualNumber

section
variable {point base : List ℚ}

theorem completePoint_map_some (hFew : point.length ≤ Coordinate.all.length) :
    completePoint (point.map (some : ℚ → Exact)) = .ok ((Grid.pad 0 point).map some) := by
  rw [completePoint, List.length_map, if_neg (Nat.not_lt.mpr hFew), Grid.pad, List.map_append,
    List.map_replicate]
  rfl

/-- The steps of a central difference move the point along the coordinate, forward and back. -/
theorem zipWith_step (along : Coordinate) (hBase : base.length = Coordinate.all.length) (h : ℚ) :
    let step : List Exact := Coordinate.all.map fun which =>
      if which = along then some h else Arithmetic.ofNat 0
    List.zipWith Arithmetic.add (base.map some) step = (along.shifted base h).map some ∧
      List.zipWith Arithmetic.sub (base.map some) step = (along.shifted base (-h)).map some := by
  obtain ⟨a, b, c, rfl⟩ := List.length_eq_three.mp hBase
  cases along <;>
    simp [Coordinate.all, Coordinate.shifted, Arithmetic.add, Arithmetic.sub, Arithmetic.ofNat,
      sub_eq_add_neg]

end

/-- A polynomial of degree two at most is met by its central difference. -/
theorem sub_eval_neg {p : ℚ[X]} (hDegree : p.natDegree ≤ 2) (h : ℚ) :
    (aeval (DualNumber.eps : ℚ[ε]) p).snd * (2 * h) = p.eval h - p.eval (-h) := by
  rw [p.as_sum_range_C_mul_X_pow' (Nat.lt_succ_of_le hDegree)]
  simp [Finset.sum_range_succ, TrivSqZeroExt.algebraMap_eq_inl, pow_two]
  ring

namespace Formula

open Interpretation (exact isOver_exact)

/-- The central difference from the values on both sides of the point. -/
theorem centralDifference_of_values {f : Formula} (along : Coordinate) (point : List ℚ)
    {a b h r : ℚ} (hFew : point.length ≤ Coordinate.all.length) (hStep : h ≠ 0)
    (hForward : exact.evaluate ((along.shifted (Grid.pad 0 point) h).map some) f = .ok (some a))
    (hBackward : exact.evaluate ((along.shifted (Grid.pad 0 point) (-h)).map some) f =
      .ok (some b))
    (hSlope : r * (2 * h) = a - b) :
    exact.centralDifference f along.name (point.map some) (some h) = .ok (some r) := by
  have hBase : (Grid.pad 0 point).length = Coordinate.all.length := Grid.length_pad hFew
  obtain ⟨hAhead, hBehind⟩ := zipWith_step along hBase h
  have hWidth : (2 * h : ℚ) ≠ 0 := mul_ne_zero two_ne_zero hStep
  have hSteps : Arithmetic.mul (Arithmetic.ofNat 2) (some h) = some (2 * h) :=
    contains_exact.mul 2 h
  have hNonzero : (some (2 * h) == (Arithmetic.ofNat 0 : Exact)) = false := by
    simpa [Arithmetic.ofNat] using hWidth
  rw [Interpretation.centralDifference, Coordinate.ofName?_name]
  simp only [completePoint_map_some hFew, Result.ok_bind, hAhead, hBehind, hForward, hBackward,
    Result.mapError_ok]
  rw [hSteps, hNonzero, if_neg Bool.false_ne_true, contains_exact.sub]
  exact congrArg Except.ok (contains_exact.div hWidth.isUnit hSlope)

/-- A formula that is made of sums, products and means of numbers and whose degree by a coordinate
is two at most has its central difference as slope. This holds exactly and for steps of any length
but zero, at every point of at most three coordinates. -/
theorem centralDifference_exact {f : Formula} (along : Coordinate) (point : List ℚ) {h : ℚ}
    (hPolynomial : f.isPolynomial = true) (hDegree : f.degreeIn along ≤ 2)
    (hFew : point.length ≤ Coordinate.all.length) (hStep : h ≠ 0) :
    ∃ slope r, f.derivative along.name = .ok slope ∧
      exact.evaluate ((Grid.pad 0 point).map some) slope = .ok (some r) ∧
      exact.centralDifference f along.name (point.map some) (some h) = .ok (some r) := by
  obtain ⟨p, hAlong, hBound⟩ := exists_isAlong along (Grid.length_pad hFew).ge hPolynomial
  obtain ⟨slope, hDifferentiable⟩ := exists_isDifferentiable_of_dual isOver_exact
    (isRootFree_of_isPolynomial hPolynomial) hAlong.dual
  have hDifference := centralDifference_of_values along point hFew hStep (hAlong.value h)
    (hAlong.value (-h)) (sub_eval_neg (hBound.trans hDegree) h)
  exact ⟨slope, _, hDifferentiable.derivative, hDifferentiable.represents.slope, hDifference⟩

/-- The mean of a square and of a product by the coordinate in which they are quadratic, at a
point without its last coordinate. -/
theorem centralDifference_exact_mean :
    let f : Formula := .operation .arithMean
      [.operation .hypot [.coordinate .x, .constant (.integer 3)],
        .operation .mul [.operation .negate [.coordinate .x],
          .operation .sub [.coordinate .x, .coordinate .z]]]
    let point : List ℚ := [5, 2]
    (f.isPolynomial = true ∧ f.degreeIn .x ≤ 2 ∧ point.length ≤ Coordinate.all.length ∧
        (1 / 7 : ℚ) ≠ 0) ∧
      ∃ slope r, f.derivative "x" = .ok slope ∧
        exact.evaluate ((Grid.pad 0 point).map some) slope = .ok (some r) ∧
        exact.centralDifference f "x" (point.map some) (some (1 / 7)) = .ok (some r) :=
  ⟨⟨by decide, by decide, by decide, by norm_num⟩,
    centralDifference_exact .x [5, 2] (by decide) (by decide) (by decide) (by norm_num)⟩

end Formula

end Formulas

import Formulas.Proofs.Formula.Derivative
import Formulas.Proofs.Formula.Totality
import Mathlib.Algebra.Algebra.Rat
import Mathlib.Algebra.Polynomial.AlgebraMap
import Mathlib.Algebra.Polynomial.BigOperators

/-! Formulas whose values are polynomials of the coordinates. The degree by one coordinate is read
off the formula. Along a line on which only this coordinate changes the formula has the values of
one polynomial of that degree at most, and in dual numbers it has the value of the same polynomial
at `ε`. -/
namespace Formulas

open Polynomial
open scoped DualNumber

/-- A sum has at most the greatest of the degrees of its terms. -/
theorem natDegree_sum_le_of_forall₂ {ps : List ℚ[X]} {degrees : List Nat}
    (hDegrees : List.Forall₂ (fun p degree => p.natDegree ≤ degree) ps degrees) :
    ps.sum.natDegree ≤ degrees.foldr max 0 := by
  induction hDegrees with
  | nil => simp
  | cons hFirst hRest ih =>
      rw [List.sum_cons, List.foldr_cons]
      exact (natDegree_add_le _ _).trans (max_le_max hFirst ih)

namespace Operation

/-- The operations that are made of sums, of products and of multiples by numbers. -/
def isPolynomial : Operation → Bool
  | .add | .sub | .mul | .hypot | .negate | .arithMean => true
  | _ => false

/-- A bound for the degree of the result from bounds for the degrees of the operands. -/
def degree (op : Operation) (degrees : List Nat) : Nat :=
  match op with
  | .mul => degrees.sum
  | .hypot => 2 * degrees.foldr max 0
  | _ => degrees.foldr max 0

/-- Such an operation on polynomials gives a polynomial, whose degree is bounded. -/
theorem exists_gives_polynomial {op : Operation} {ps : List ℚ[X]} {degrees : List Nat}
    (hPolynomial : op.isPolynomial = true) (hAdmits : op.admits ps.length = true)
    (hDegrees : List.Forall₂ (fun p degree => p.natDegree ≤ degree) ps degrees) :
    ∃ p, op.Gives ps p ∧ p.natDegree ≤ op.degree degrees := by
  cases op with
  | add =>
      obtain ⟨p, q, rfl⟩ := exists_pair rfl hAdmits
      obtain _ | ⟨hp, _ | ⟨hq, _ | _⟩⟩ := hDegrees
      refine ⟨p + q, .add p q, ?_⟩
      simpa [degree] using (natDegree_add_le p q).trans (max_le_max hp hq)
  | sub =>
      obtain ⟨p, q, rfl⟩ := exists_pair rfl hAdmits
      obtain _ | ⟨hp, _ | ⟨hq, _ | _⟩⟩ := hDegrees
      refine ⟨p - q, .sub p q, ?_⟩
      simpa [degree] using (natDegree_sub_le p q).trans (max_le_max hp hq)
  | mul =>
      obtain ⟨p, q, rfl⟩ := exists_pair rfl hAdmits
      obtain _ | ⟨hp, _ | ⟨hq, _ | _⟩⟩ := hDegrees
      refine ⟨p * q, .mul p q, ?_⟩
      simpa [degree] using natDegree_mul_le_of_le hp hq
  | hypot =>
      obtain ⟨p, q, rfl⟩ := exists_pair rfl hAdmits
      obtain _ | ⟨hp, _ | ⟨hq, _ | _⟩⟩ := hDegrees
      refine ⟨p * p + q * q, .hypot p q, ?_⟩
      have hBound := (natDegree_add_le (p * p) (q * q)).trans
        (max_le_max (natDegree_mul_le_of_le hp hp) (natDegree_mul_le_of_le hq hq))
      simp only [degree, List.foldr_cons, List.foldr_nil]
      omega
  | negate =>
      obtain ⟨p, rfl⟩ := exists_single rfl hAdmits
      obtain _ | ⟨hp, _ | _⟩ := hDegrees
      refine ⟨-p, .negate p, ?_⟩
      simpa [degree] using hp
  | arithMean =>
      obtain ⟨p, rest, rfl⟩ := exists_cons hAdmits
      have hCount : ((rest.length + 1 : Nat) : ℚ) ≠ 0 := Nat.cast_ne_zero.mpr (Nat.succ_ne_zero _)
      refine ⟨C ((rest.length + 1 : Nat) : ℚ)⁻¹ * (p :: rest).sum, .arithMean ?_ ?_, ?_⟩
      · rw [← map_natCast C]
        exact (isUnit_iff_ne_zero.mpr hCount).map C
      · rw [← map_natCast C, mul_right_comm, ← C_mul, inv_mul_cancel₀ hCount, C_1, one_mul]
      · exact (natDegree_C_mul_le _ _).trans (natDegree_sum_le_of_forall₂ hDegrees)
  | _ => exact Bool.noConfusion hPolynomial

end Operation

namespace Formula

/-- All constants are finite, and all operations give polynomials and have the right number of
operands. -/
def isPolynomial : Formula → Bool :=
  everywhere Constant.isFinite fun op given => op.isPolynomial && op.admits given

theorem isPolynomial_operation {op : Operation} {operands : List Formula} :
    isPolynomial (.operation op operands) = true ↔ op.isPolynomial = true ∧
      op.admits operands.length = true ∧ ∀ f ∈ operands, f.isPolynomial = true := by
  rw [isPolynomial, everywhere_operation, Bool.and_eq_true, and_assoc]

theorem isRootFree_of_isPolynomial {f : Formula} (hPolynomial : f.isPolynomial = true) :
    f.isRootFree = true := by
  induction f with
  | constant value => rfl
  | coordinate which => rfl
  | operation op operands ih =>
      obtain ⟨hOp, -, hOperands⟩ := isPolynomial_operation.mp hPolynomial
      refine isRootFree_operation.mpr ⟨?_, fun f hf => ih f hf (hOperands f hf)⟩
      rintro rfl
      exact Bool.noConfusion hOp

/-- The degree by one of the coordinates, where the others count as constants. -/
def degreeIn (along : Coordinate) : Formula → Nat :=
  fold (fun _ => 0) (fun which => if which = along then 1 else 0) Operation.degree

theorem degreeIn_operation (along : Coordinate) (op : Operation) (operands : List Formula) :
    degreeIn along (.operation op operands) = op.degree (operands.map (degreeIn along)) :=
  fold_operation ..

end Formula

namespace Coordinate

variable {which along : Coordinate} {base : List ℚ} {a : ℚ}

/-- A point that has been moved along one of the coordinates. -/
def shifted (along : Coordinate) (base : List ℚ) (t : ℚ) : List ℚ :=
  List.zipWith (fun which a => if which = along then a + t else a) all base

theorem getElem?_shifted (hBase : base[which.index]? = some a) (t : ℚ) :
    (along.shifted base t)[which.index]? = some (if which = along then a + t else a) := by
  have hColumn : all[which.index]? = some which := by cases which <;> rfl
  rw [shifted, List.getElem?_zipWith, hColumn, hBase]

theorem name_eq_name_iff : which.name = along.name ↔ which = along := by
  cases which <;> cases along <;> decide

end Coordinate

namespace Formula

open Interpretation (exact isOver_exact)

variable {along : Coordinate} {base : List ℚ} {f : Formula} {a : ℚ}

/-- Along the coordinate the formula has the values of the polynomial, whose variable is the
distance from the base point. -/
structure IsAlong (along : Coordinate) (base : List ℚ) (f : Formula) (p : ℚ[X]) : Prop where
  value (t : ℚ) : exact.evaluate ((along.shifted base t).map some) f = .ok (some (p.eval t))
  dual : exact.dual.evaluate (Coordinate.seeds along.name (base.map some)) f =
    .ok (Dual.pair some (aeval (DualNumber.eps : ℚ[ε]) p))

theorem isAlong_constant {value : Constant} (hValue : value.exact? = some a) :
    IsAlong along base (.constant value) (C a) := by
  have hEvaluate (point : List Exact) : exact.evaluate point (.constant value) = .ok (some a) :=
    Interpretation.evaluate_constant_eq_ok.mpr (congrArg (Option.map some) hValue)
  refine ⟨fun t => ?_, isOver_exact.evaluate_dual_leaf rfl ?_ ?_⟩
  · rw [eval_C, hEvaluate]
  · rw [aeval_C]
    exact hEvaluate _
  · rw [aeval_C]
    exact Nat.cast_zero.symm

theorem evaluate_coordinate {point : List ℚ} {which : Coordinate}
    (hPoint : point[which.index]? = some a) :
    exact.evaluate (point.map some) (.coordinate which) = .ok (some a) :=
  Interpretation.coordinateValue_map hPoint

theorem isAlong_self (hBase : base[along.index]? = some a) :
    IsAlong along base (.coordinate along) (C a + X) := by
  refine ⟨fun t => ?_, isOver_exact.evaluate_dual_leaf rfl ?_ ?_⟩
  · rw [evaluate_coordinate (Coordinate.getElem?_shifted hBase t)]
    simp
  · rw [evaluate_coordinate hBase]
    simp [TrivSqZeroExt.algebraMap_eq_inl]
  · simp [leafSlope, TrivSqZeroExt.algebraMap_eq_inl]

theorem isAlong_other {which : Coordinate} (hOther : which ≠ along)
    (hBase : base[which.index]? = some a) : IsAlong along base (.coordinate which) (C a) := by
  refine ⟨fun t => ?_, isOver_exact.evaluate_dual_leaf rfl ?_ ?_⟩
  · rw [evaluate_coordinate (Coordinate.getElem?_shifted hBase t)]
    simp [hOther]
  · rw [evaluate_coordinate hBase]
    simp [TrivSqZeroExt.algebraMap_eq_inl]
  · simp [leafSlope, Coordinate.name_eq_name_iff, hOther, TrivSqZeroExt.algebraMap_eq_inl]

/-- An operation follows the polynomial that it gives from those of its operands. -/
theorem isAlong_operation {op : Operation} {operands : List Formula} {ps : List ℚ[X]} {p : ℚ[X]}
    (hOperands : List.Forall₂ (IsAlong along base) operands ps) (hGives : op.Gives ps p) :
    IsAlong along base (.operation op operands) p where
  value t := by
    refine isOver_exact.evaluate_of_gives (hGives.map (evalRingHom t)) ?_
    exact List.forall₂_map_right_iff.mpr (hOperands.imp fun _ _ hOperand => hOperand.value t)
  dual := by
    refine isOver_exact.dual.evaluate_of_gives
      (hGives.map (aeval (DualNumber.eps : ℚ[ε])).toRingHom) ?_
    exact List.forall₂_map_right_iff.mpr (hOperands.imp fun _ _ hOperand => hOperand.dual)

/-- A polynomial formula follows a polynomial, whose degree is bounded by that of the formula. -/
theorem exists_isAlong (along : Coordinate) (hBase : Coordinate.all.length ≤ base.length)
    (hPolynomial : f.isPolynomial = true) :
    ∃ p, IsAlong along base f p ∧ p.natDegree ≤ f.degreeIn along := by
  induction f with
  | constant value =>
      cases value with
      | integer n => exact ⟨C (n : ℚ), isAlong_constant rfl, (natDegree_C _).le⟩
      | real x => exact ⟨C x.toRat, isAlong_constant (if_pos hPolynomial), (natDegree_C _).le⟩
  | coordinate which =>
      have hIndex : which.index < base.length := which.index_lt.trans_le hBase
      have hValue : base[which.index]? = some base[which.index] := List.getElem?_eq_getElem hIndex
      by_cases hAlong : which = along
      · subst hAlong
        exact ⟨_, isAlong_self hValue, by simp [degreeIn, fold]⟩
      · exact ⟨_, isAlong_other hAlong hValue, (natDegree_C _).trans_le (Nat.zero_le _)⟩
  | operation op operands ih =>
      obtain ⟨hOp, hAdmits, hOperands⟩ := isPolynomial_operation.mp hPolynomial
      choose! polynomial hAlong hDegrees using fun f hf => ih f hf (hOperands f hf)
      have hFollowed : List.Forall₂ (IsAlong along base) operands (operands.map polynomial) :=
        List.forall₂_map_right_iff.mpr (List.forall₂_same.mpr hAlong)
      have hBounds : List.Forall₂ (fun p degree => p.natDegree ≤ degree)
          (operands.map polynomial) (operands.map (degreeIn along)) := by
        rw [List.forall₂_map_left_iff, List.forall₂_map_right_iff]
        exact List.forall₂_same.mpr hDegrees
      rw [hFollowed.length_eq] at hAdmits
      obtain ⟨p, hGives, hDegree⟩ := Operation.exists_gives_polynomial hOp hAdmits hBounds
      rw [degreeIn_operation]
      exact ⟨p, isAlong_operation hFollowed hGives, hDegree⟩

end Formula

end Formulas

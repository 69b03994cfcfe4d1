import Formulas.Proofs.Arithmetic.Ordered
import Formulas.Proofs.Formula.HasSlope
import Mathlib.Algebra.Algebra.Rat
import Mathlib.Algebra.Order.Ring.Cast
import Mathlib.Tactic.FieldSimp
import Mathlib.Tactic.Linarith

/-! The derivative of a geometric mean, exactly and over any ordered field. The magnitude of the
product of the operands is the power of the mean, and the rule differentiates the product without
its sign. So it has the slope of the root where the product is positive, and the negated slope where
it is negative. The slopes of the operands are those that their own derivatives have. Where a
geometric mean inside an operand is the root of a negative product, these are not the exact slopes,
which the operands have in dual numbers. -/
namespace Formulas

open Defined (number)
open scoped DualNumber

/-- What the constants of a formula stand for in a field. Integers stand for themselves, and the
real that is nearest to the reciprocal of the count stands for the reciprocal. -/
structure ExactConstants (K : Type) [Field K] (count : Nat) where
  number? : Constant → Option K
  integer (n : Int) : number? (.integer n) = some (n : K)
  share : number? (.real (Binary64.round false 1 count)) = some (1 / (count : K))

namespace ExactConstants

/-- All other constants stand for their exact values. -/
def nearest (K : Type) [Field K] (count : Nat) : ExactConstants K count where
  number? value :=
    if value = .real (Binary64.round false 1 count) then some (1 / (count : K))
    else value.exact?.map Rat.cast
  integer n := by
    rw [if_neg Constant.noConfusion, Constant.exact?, Option.map_some, Rat.cast_intCast]
  share := if_pos rfl

/-- The constant in the rule for this many operands stands for the share of each of them. -/
def HasShare {K : Type} [Field K] {count : Nat} (constants : ExactConstants K count) (n : Nat) :
    Prop :=
  constants.number? (.real (Binary64.round false 1 n)) = some (1 / (n : K))

end ExactConstants

variable {K : Type} [Field K] [LinearOrder K] {count : Nat}

namespace Interpretation

/-- Exact arithmetic of an ordered field. -/
noncomputable def ordered (constants : ExactConstants K count) : Interpretation (Defined K) where
  constant value := (constants.number? value).map number
  operation := Arithmetic.combine

variable (constants : ExactConstants K count)

theorem isOver_ordered : (ordered constants).IsOver (number (K := K)) where
  contains := Defined.contains
  operation := rfl
  integer n := by
    show (constants.number? (.integer n)).map number = some (number (n : K))
    rw [constants.integer, Option.map_some, Int.cast_natCast]
  constant hConstant := by
    obtain ⟨r, -, rfl⟩ := Option.map_eq_some_iff.mp hConstant
    exact ⟨r, rfl⟩

variable [IsStrictOrderedRing K] {point : List (Defined K)} {g : K}

/-- The power of the mean that the rule divides by is not zero, and its constant is the share of
each operand. -/
theorem exists_geomMeanSlope {j : Jet} {jets : List Jet} {z : K[ε]} {ws : List K[ε]} {n : Nat}
    (hCount : n = jets.length + 1) (hShare : constants.HasShare n)
    (hj : Jet.Represents (ordered constants) number point j z)
    (hJets : List.Forall₂ (Jet.Represents (ordered constants) number point) jets ws)
    (hMean : (ordered constants).evaluate point
      (.operation .geomMean ((j :: jets).map Jet.value)) = .ok (number g)) (hPositive : 0 < g) :
    ∃ D, (ordered constants).evaluate point (Jet.geomMeanSlope j jets) = .ok (number D) ∧
      n * g ^ (n - 1) * D = (z :: ws).prod.snd := by
  have hPower : g ^ jets.length ≠ 0 := pow_ne_zero _ hPositive.ne'
  have hFactor : (n : K) ≠ 0 := Nat.cast_ne_zero.mpr (hCount ▸ Nat.succ_ne_zero _)
  obtain ⟨D, hD⟩ : ∃ D, n * g ^ jets.length * D = (z :: ws).prod.snd :=
    ⟨_, mul_div_cancel₀ _ (mul_ne_zero hFactor hPower)⟩
  have hQuotient : D * g ^ jets.length = 1 / n * (z :: ws).prod.snd := by
    rw [← hD]
    field_simp
  have hConstant : (ordered constants).constant (.real (Binary64.round false 1 (jets.length + 1))) =
      some (number (1 / n : K)) :=
    hCount ▸ congrArg (Option.map number) hShare
  have hSlope := hj.geomMeanSlope (isOver_ordered constants) hJets hConstant hMean
  rw [Defined.contains.div (isUnit_iff_ne_zero.mpr hPower) hQuotient] at hSlope
  rw [show jets.length = n - 1 by omega] at hD
  exact ⟨D, hSlope, hD⟩

end Interpretation

omit [LinearOrder K] in
/-- A dual number whose value is a root has one slope with which it is a root as a whole. -/
theorem pow_eq_iff_snd_eq [CharZero K] {degree : Nat} {slope : K} {r w : K[ε]}
    (hDegree : degree ≠ 0) (hNonzero : r.fst ≠ 0) (hValue : r.fst ^ degree = w.fst)
    (hSlope : degree * r.fst ^ (degree - 1) * slope = w.snd) : r ^ degree = w ↔ r.snd = slope := by
  have hFactor : (degree : K) * r.fst ^ (degree - 1) ≠ 0 :=
    mul_ne_zero (Nat.cast_ne_zero.mpr hDegree) (pow_ne_zero _ hNonzero)
  rw [TrivSqZeroExt.ext_iff, TrivSqZeroExt.fst_pow, TrivSqZeroExt.snd_pow, ← hSlope,
    and_iff_right hValue, nsmul_eq_mul, smul_eq_mul, ← mul_assoc]
  exact mul_right_inj' hFactor

namespace Formula

open Interpretation (ordered isOver_ordered)

/-- Every geometric mean in the formula has a positive product at the point, and the constant of its
rule stands for the share of each operand. -/
structure HasPositiveMeans (constants : ExactConstants K count) (point : List (Defined K))
    (f : Formula) : Prop where
  positive {operands : List Formula} {ps : List K} :
    .operation .geomMean operands ∈ f.nodes .depthFirst →
    List.Forall₂ (fun g p => (ordered constants).evaluate point g = .ok (number p)) operands ps →
    0 < ps.prod
  share {operands : List Formula} :
    .operation .geomMean operands ∈ f.nodes .depthFirst → constants.HasShare operands.length

variable {constants : ExactConstants K count} {name : String} {point : List (Defined K)}
  {f : Formula} {op : Operation} {operands : List Formula} {zs : List K[ε]} {z : K[ε]} {g : K}

omit [LinearOrder K] in
theorem fst_prod (zs : List K[ε]) : zs.prod.fst = (zs.map TrivSqZeroExt.fst).prod :=
  map_list_prod (TrivSqZeroExt.fstHom K K K) zs

namespace HasPositiveMeans

theorem operand (hMeans : HasPositiveMeans constants point (.operation op operands))
    (hf : f ∈ operands) : f.HasPositiveMeans constants point where
  positive hNode := hMeans.positive (mem_nodes_operation.mpr (.inr ⟨f, hf, hNode⟩))
  share hNode := hMeans.share (mem_nodes_operation.mpr (.inr ⟨f, hf, hNode⟩))

theorem leaf (hLeaf : f.isOperation = false) : f.HasPositiveMeans constants point := by
  have hNone (operands : List Formula) : .operation .geomMean operands ∉ f.nodes .depthFirst :=
    fun hNode => Bool.noConfusion (eq_of_mem_nodes hLeaf hNode ▸ hLeaf)
  exact ⟨fun hNode => absurd hNode (hNone _), fun hNode => absurd hNode (hNone _)⟩

theorem geomMean (hOperands : ∀ f ∈ operands, f.HasPositiveMeans constants point)
    (hSlopes : List.Forall₂ (HasSlope (ordered constants) number name point) operands zs)
    (hProduct : 0 < zs.prod.fst) (hShare : constants.HasShare operands.length) :
    HasPositiveMeans constants point (.operation .geomMean operands) := by
  constructor
  · intro parts ps hNode hParts
    rcases mem_nodes_operation.mp hNode with hWhole | ⟨f, hf, hNode⟩
    · obtain ⟨-, rfl⟩ := Formula.operation.inj hWhole
      rw [eq_of_values Defined.contains hParts (values_of_hasSlope hSlopes), ← fst_prod]
      exact hProduct
    · exact (hOperands f hf).positive hNode hParts
  · intro parts hNode
    rcases mem_nodes_operation.mp hNode with hWhole | ⟨f, hf, hNode⟩
    · obtain ⟨-, rfl⟩ := Formula.operation.inj hWhole
      exact hShare
    · exact (hOperands f hf).share hNode

theorem prod_pos (hMeans : HasPositiveMeans constants point (.operation .geomMean operands))
    (hSlopes : List.Forall₂ (HasSlope (ordered constants) number name point) operands zs) :
    0 < zs.prod.fst :=
  fst_prod zs ▸ hMeans.positive (mem_nodes_self _) (values_of_hasSlope hSlopes)

end HasPositiveMeans

variable [IsStrictOrderedRing K]

/-! The exact slope of a mean -/

section Sign

variable (hNonempty : operands ≠ [])
  (hOperands : List.Forall₂ (HasExactSlope (ordered constants) number name point) operands zs)
include hNonempty hOperands

theorem hasExactSlope_geomMean_of_pos (hProduct : 0 < zs.prod.fst) :
    HasExactSlope (ordered constants) number name point (.operation .geomMean operands) z ↔
      0 < z.fst ∧ z ^ operands.length = zs.prod := by
  rw [HasExactSlope, (isOver_ordered constants).dual.evaluate_geomMean hNonempty hOperands,
    Except.ok.injEq, Defined.dual_root_eq_iff (List.length_eq_zero_iff.not.mpr hNonempty) hProduct]

theorem hasExactSlope_geomMean_of_neg (hProduct : zs.prod.fst < 0) :
    HasExactSlope (ordered constants) number name point (.operation .geomMean operands) z ↔
      0 < z.fst ∧ z ^ operands.length = -zs.prod := by
  have hMagnitude : 0 < (-zs.prod).fst := by
    rw [TrivSqZeroExt.fst_neg]
    exact neg_pos.mpr hProduct
  rw [HasExactSlope, (isOver_ordered constants).dual.evaluate_geomMean hNonempty hOperands,
    Except.ok.injEq, ← Defined.dual_root_neg,
    Defined.dual_root_eq_iff (List.length_eq_zero_iff.not.mpr hNonempty) hMagnitude]

end Sign

/-! The slope that the rule gives a mean -/

/-- The mean of operands with slopes is the root of the magnitude of their product. -/
theorem evaluate_geomMean_of_hasSlope (hNonempty : operands ≠ [])
    (hOperands : List.Forall₂ (HasSlope (ordered constants) number name point) operands zs) :
    (ordered constants).evaluate point (.operation .geomMean operands) = .ok (number g) ↔
      0 ≤ g ∧ g ^ operands.length = |zs.prod.fst| := by
  rw [(isOver_ordered constants).evaluate_geomMean hNonempty (values_of_hasSlope hOperands),
    ← fst_prod, Except.ok.injEq]
  exact Defined.root_eq_iff (List.length_eq_zero_iff.not.mpr hNonempty)

/-- Where the operands have slopes, and the magnitude of their product is not zero and has a root,
the mean has a slope. -/
theorem exists_hasSlope_geomMean (hNonempty : operands ≠ [])
    (hShare : constants.HasShare operands.length)
    (hOperands : List.Forall₂ (HasSlope (ordered constants) number name point) operands zs)
    (hPositive : 0 < g) (hMean : g ^ operands.length = |zs.prod.fst|) :
    ∃ D, HasSlope (ordered constants) number name point (.operation .geomMean operands)
        ((g, D) : K[ε]) ∧ operands.length * g ^ (operands.length - 1) * D = zs.prod.snd := by
  have hValue := (evaluate_geomMean_of_hasSlope hNonempty hOperands).mpr ⟨hPositive.le, hMean⟩
  obtain ⟨jets, rfl, hDerivatives, hJets⟩ := exists_jets_of_hasSlope hOperands
  cases hJets with
  | nil => exact absurd rfl hNonempty
  | @cons j z rest ws hj hRest =>
      obtain ⟨D, hSlope, hD⟩ := Interpretation.exists_geomMeanSlope constants (List.length_map ..)
        hShare hj hRest hValue hPositive
      exact ⟨D, ⟨_, derivative_of_jets rfl hDerivatives, hValue, hSlope⟩, hD⟩

/-- A mean of a positive product has the slope of the root. -/
theorem hasSlope_geomMean_iff (hNonempty : operands ≠ [])
    (hShare : constants.HasShare operands.length)
    (hOperands : List.Forall₂ (HasSlope (ordered constants) number name point) operands zs)
    (hProduct : 0 < zs.prod.fst) :
    HasSlope (ordered constants) number name point (.operation .geomMean operands) z ↔
      0 < z.fst ∧ z ^ operands.length = zs.prod := by
  have hDegree : operands.length ≠ 0 := List.length_eq_zero_iff.not.mpr hNonempty
  constructor
  · intro hSlope
    have ⟨_, _, hJet⟩ := hSlope
    obtain ⟨hNonneg, hMean⟩ := (evaluate_geomMean_of_hasSlope hNonempty hOperands).mp hJet.value
    rw [abs_of_pos hProduct] at hMean
    have hPositive : 0 < z.fst := by
      refine hNonneg.lt_of_ne fun hZero => ?_
      rw [← hZero, zero_pow hDegree] at hMean
      exact hProduct.ne hMean
    obtain ⟨D, hSame, hD⟩ := exists_hasSlope_geomMean hNonempty hShare hOperands hPositive
      (hMean.trans (abs_of_pos hProduct).symm)
    have hRate : z.snd = D := congrArg TrivSqZeroExt.snd (hSlope.unique Defined.contains hSame)
    exact ⟨hPositive, (pow_eq_iff_snd_eq hDegree hPositive.ne' hMean hD).mpr hRate⟩
  · rintro ⟨hPositive, hPower⟩
    have hMean : z.fst ^ operands.length = zs.prod.fst := by
      rw [← hPower, TrivSqZeroExt.fst_pow]
    obtain ⟨D, hSlope, hD⟩ := exists_hasSlope_geomMean hNonempty hShare hOperands hPositive
      (hMean.trans (abs_of_pos hProduct).symm)
    obtain rfl := (pow_eq_iff_snd_eq hDegree hPositive.ne' hMean hD).mp hPower
    exact hSlope

/-! Where the two agree -/

/-- The slope of a mean of a positive product is exact if those of its operands are. -/
theorem hasSlope_geomMean_iff_exact
    (hMeans : HasPositiveMeans constants point (.operation .geomMean operands))
    (hOperands : ∀ ws : List K[ε],
      List.Forall₂ (HasSlope (ordered constants) number name point) operands ws ↔
        List.Forall₂ (HasExactSlope (ordered constants) number name point) operands ws) :
    HasSlope (ordered constants) number name point (.operation .geomMean operands) z ↔
      HasExactSlope (ordered constants) number name point (.operation .geomMean operands) z := by
  have hOver := isOver_ordered constants
  have hShare := hMeans.share (mem_nodes_self _)
  constructor
  · intro hSlope
    have ⟨_, _, hWhole⟩ := hSlope
    have hNonempty := Interpretation.ne_nil_of_geomMean hWhole.value
    obtain ⟨ws, hSlopes⟩ := hSlope.exists_operands hOver Defined.reflectsRoots
    have hProduct := hMeans.prod_pos hSlopes
    exact (hasExactSlope_geomMean_of_pos hNonempty ((hOperands ws).mp hSlopes) hProduct).mpr
      ((hasSlope_geomMean_iff hNonempty hShare hSlopes hProduct).mp hSlope)
  · intro hExact
    have hNonempty := Interpretation.ne_nil_of_geomMean hExact
    obtain ⟨ws, hExacts⟩ := hExact.exists_operands hOver Defined.reflectsRoots
    have hSlopes := (hOperands ws).mpr hExacts
    have hProduct := hMeans.prod_pos hSlopes
    exact (hasSlope_geomMean_iff hNonempty hShare hSlopes hProduct).mpr
      ((hasExactSlope_geomMean_of_pos hNonempty hExacts hProduct).mp hExact)

/-- The slope of a formula is exact if all geometric means in it are roots of positive products. -/
theorem hasSlope_iff_exact_of_means (hMeans : f.HasPositiveMeans constants point) :
    f.HasSlope (ordered constants) number name point z ↔
      f.HasExactSlope (ordered constants) number name point z := by
  have hOver := isOver_ordered constants
  induction f generalizing z with
  | constant value => exact hasSlope_iff_exact hOver rfl
  | coordinate which => exact hasSlope_iff_exact hOver rfl
  | operation op operands ih =>
      have hOperands := forall₂_hasSlope_iff_exact fun f hf w => ih f hf (hMeans.operand hf) (z := w)
      by_cases hRoot : op = .geomMean
      · subst hRoot
        exact hasSlope_geomMean_iff_exact hMeans hOperands
      · rw [hasSlope_operation_iff hOver Defined.reflectsRoots hRoot,
          hasExactSlope_operation_iff hOver hRoot]
        exact exists_congr fun ws => and_congr_left fun _ => hOperands ws

/-- Let `n` operands and their derivatives have values, let `P` be the product of the operands and
`P'` its slope with these derivatives, and let `g > 0` be a number whose power `g ^ n` is the
magnitude of `P`. Then the geometric mean of the operands has the value `g`, and its derivative has
a value `D` with `n * g ^ (n - 1) * D = P'`. So `D` is the slope of the root of `P` where that is
positive, and its negation is the slope of the root of `-P` where `P` is negative. If the slopes of
the operands are exact, then the mean has the exact slope `D` where `P` is positive, and the
negation of `D` where it is negative. They are exact if all geometric means inside the operands are
roots of positive products. -/
theorem derivative_geomMean (constants : ExactConstants K operands.length) (name : String)
    (point : List K) {zs : List K[ε]} {g : K} (hNonempty : operands ≠ [])
    (hOperands : List.Forall₂ (HasSlope (ordered constants) number name (point.map number))
      operands zs)
    (hPositive : 0 < g) (hMean : g ^ operands.length = |zs.prod.fst|) :
    let i := ordered constants
    let mean : Formula := .operation .geomMean operands
    let n := operands.length
    i.evaluate (point.map number) mean = .ok (number g) ∧
      ∃ slope D, mean.derivative name = .ok slope ∧
        i.evaluate (point.map number) slope = .ok (number D) ∧
        n * g ^ (n - 1) * D = zs.prod.snd ∧
        (0 < zs.prod.fst →
          ∀ root : K[ε], root.fst = g → (root ^ n = zs.prod ↔ root.snd = D)) ∧
        (zs.prod.fst < 0 →
          ∀ root : K[ε], root.fst = g → (root ^ n = -zs.prod ↔ root.snd = -D)) ∧
        (List.Forall₂ (HasExactSlope i number name (point.map number)) operands zs →
          (0 < zs.prod.fst → mean.HasExactSlope i number name (point.map number) (g, D)) ∧
          (zs.prod.fst < 0 → mean.HasExactSlope i number name (point.map number) (g, -D))) ∧
        ((∀ f ∈ operands, f.HasPositiveMeans constants (point.map number)) →
          List.Forall₂ (HasExactSlope i number name (point.map number)) operands zs) := by
  intro i mean n
  have hDegree : n ≠ 0 := List.length_eq_zero_iff.not.mpr hNonempty
  obtain ⟨D, ⟨slope, hSlope, hJet⟩, hD⟩ :=
    exists_hasSlope_geomMean hNonempty constants.share hOperands hPositive hMean
  have hRises (hProduct : 0 < zs.prod.fst) (root : K[ε]) (hRoot : root.fst = g) :
      root ^ n = zs.prod ↔ root.snd = D := by
    rw [abs_of_pos hProduct] at hMean
    subst hRoot
    exact pow_eq_iff_snd_eq hDegree hPositive.ne' hMean hD
  have hFalls (hProduct : zs.prod.fst < 0) (root : K[ε]) (hRoot : root.fst = g) :
      root ^ n = -zs.prod ↔ root.snd = -D := by
    rw [abs_of_neg hProduct] at hMean
    subst hRoot
    refine pow_eq_iff_snd_eq hDegree hPositive.ne' hMean ?_
    rw [mul_neg, hD, TrivSqZeroExt.snd_neg]
  refine ⟨hJet.value, slope, D, hSlope, hJet.slope, hD, hRises, hFalls, fun hExact => ⟨?_, ?_⟩, ?_⟩
  · intro hProduct
    exact (hasExactSlope_geomMean_of_pos hNonempty hExact hProduct).mpr
      ⟨hPositive, (hRises hProduct _ rfl).mpr rfl⟩
  · intro hProduct
    exact (hasExactSlope_geomMean_of_neg hNonempty hExact hProduct).mpr
      ⟨hPositive, (hFalls hProduct _ rfl).mpr rfl⟩
  · intro hMeans
    exact (forall₂_hasSlope_iff_exact (fun f hf _ => hasSlope_iff_exact_of_means (hMeans f hf))
      zs).mp hOperands

/-- Three operands with a negative product, one of which is a geometric mean of a positive product.
The mean is 2, its derivative by the first coordinate has the value -2 / 9, and its exact slope is
2 / 9. -/
theorem derivative_geomMean_negative :
    let constants := ExactConstants.nearest ℚ 3
    let i := ordered constants
    let inner : Formula := .operation .geomMean [.coordinate .x, .coordinate .y, .coordinate .z]
    let operands : List Formula := [inner, .coordinate .y, .constant (.integer 2)]
    let point : List ℚ := [1, -2, -4]
    let zs : List ℚ[ε] := [.inl 2 + .inr (2 / 3), .inl (-2), .inl 2]
    let mean : Formula := .operation .geomMean operands
    (operands ≠ [] ∧ List.Forall₂ (HasSlope i number "x" (point.map number)) operands zs ∧
        (0 : ℚ) < 2 ∧ (2 : ℚ) ^ operands.length = |zs.prod.fst| ∧
        ∀ f ∈ operands, f.HasPositiveMeans constants (point.map number)) ∧
      i.evaluate (point.map number) mean = .ok (number 2) ∧
      ∃ slope, mean.derivative "x" = .ok slope ∧
        i.evaluate (point.map number) slope = .ok (number (-2 / 9)) ∧
        (∀ root : ℚ[ε], root.fst = 2 → (root ^ 3 = -zs.prod ↔ root.snd = 2 / 9)) ∧
        mean.HasExactSlope i number "x" (point.map number) ((2, 2 / 9) : ℚ[ε]) := by
  intro constants i inner operands point zs mean
  have hOver : i.IsOver number := isOver_ordered _
  have hCoordinate (which : Coordinate) (z : ℚ[ε]) (hValue : point[which.index]? = some z.fst)
      (hSlope : z.snd = leafSlope "x" (.coordinate which)) :
      HasSlope i number "x" (point.map number) (.coordinate which) z := by
    refine hasSlope_leaf hOver rfl ?_ hSlope
    rw [Interpretation.evaluate_coordinate_eq_ok, List.getElem?_map, hValue, Option.map_some]
  have hX := hCoordinate .x (.inl 1 + .inr 1) (by simp [point, Coordinate.index])
    (by simp [leafSlope, Coordinate.name])
  have hY := hCoordinate .y (.inl (-2)) (by simp [point, Coordinate.index])
    (by simp [leafSlope, Coordinate.name])
  have hZ := hCoordinate .z (.inl (-4)) (by simp [point, Coordinate.index])
    (by simp [leafSlope, Coordinate.name])
  have hConstant : HasSlope i number "x" (point.map number) (.constant (.integer 2)) (.inl 2) :=
    hasSlope_leaf hOver rfl (hOver.evaluate_integer 2) (by simp [leafSlope])
  have hParts := List.Forall₂.cons hX (.cons hY (.cons hZ .nil))
  have hProduct : (0 : ℚ) <
      ([.inl 1 + .inr 1, .inl (-2), .inl (-4)] : List ℚ[ε]).prod.fst := by
    norm_num
  have hInner : inner.HasSlope i number "x" (point.map number) (.inl 2 + .inr (2 / 3)) := by
    refine (hasSlope_geomMean_iff (List.cons_ne_nil _ _) ?_ hParts hProduct).mpr
      ⟨by simp, TrivSqZeroExt.ext ?_ ?_⟩
    · exact constants.share
    · norm_num [pow_succ]
    · norm_num [pow_succ]
  have hOperands : List.Forall₂ (HasSlope i number "x" (point.map number)) operands zs :=
    .cons hInner (.cons hY (.cons hConstant .nil))
  have hLeaves : ∀ f ∈ [coordinate .x, coordinate .y, coordinate .z],
      f.HasPositiveMeans constants (point.map number) := by
    rintro (_ | which | _) hf
    · simp at hf
    · exact .leaf rfl
    · simp at hf
  have hMeans : ∀ f ∈ operands, f.HasPositiveMeans constants (point.map number) :=
    List.forall_mem_cons.mpr ⟨.geomMean hLeaves hParts hProduct constants.share,
      List.forall_mem_cons.mpr ⟨.leaf rfl,
        List.forall_mem_cons.mpr ⟨.leaf rfl, List.forall_mem_nil _⟩⟩⟩
  have hValue : zs.prod.fst = -8 := by norm_num [zs]
  have hChange : zs.prod.snd = -(8 / 3) := by norm_num [zs]
  have hMean : (2 : ℚ) ^ operands.length = |zs.prod.fst| := by
    norm_num [hValue, operands, abs_of_pos]
  obtain ⟨hTwo, slope, D, hSlope, hD, hRate, -, hFalls, hExact, hExacts⟩ :=
    derivative_geomMean constants "x" point (List.cons_ne_nil _ _) hOperands two_pos hMean
  obtain rfl : D = -2 / 9 := by
    norm_num [hChange, operands] at hRate
    linarith
  have hNegative : zs.prod.fst < 0 := by
    rw [hValue]
    norm_num
  have hRise : -(-2 / 9 : ℚ) = 2 / 9 := by norm_num
  rw [hRise] at hFalls hExact
  exact ⟨⟨List.cons_ne_nil _ _, hOperands, two_pos, hMean, hMeans⟩, hTwo, slope, hSlope, hD,
    hFalls hNegative, (hExact (hExacts hMeans)).2 hNegative⟩

/-- The mean of one mean, below zero. The inner mean is the magnitude of the coordinate and falls as
the coordinate rises, but its derivative has the value 1, and so has that of the outer mean. -/
theorem derivative_geomMean_nested :
    let i := ordered (ExactConstants.nearest ℚ 1)
    let point : List (Defined ℚ) := [number (-2)]
    let inner : Formula := .operation .geomMean [.coordinate .x]
    let mean : Formula := .operation .geomMean [inner]
    let zs : List ℚ[ε] := [.inl 2 + .inr (-1)]
    List.Forall₂ (HasExactSlope i number "x" point) [inner] zs ∧
      (∃ z : ℚ[ε], inner.HasSlope i number "x" point z) ∧
      (0 : ℚ) < 2 ∧ (2 : ℚ) ^ 1 = |zs.prod.fst| ∧
      i.evaluate point mean = .ok (number 2) ∧
      ∃ slope D, mean.derivative "x" = .ok slope ∧ i.evaluate point slope = .ok (number D) ∧
        1 * 2 ^ (1 - 1) * D ≠ zs.prod.snd := by
  intro i point inner mean zs
  have hOver : i.IsOver number := isOver_ordered _
  have hRule (f : Formula) (z : ℚ[ε]) (hf : f.HasSlope i number "x" point z)
      (hMagnitude : |z.fst| = 2) :
      HasSlope i number "x" point (.operation .geomMean [f]) ((2, z.snd) : ℚ[ε]) := by
    obtain ⟨D, hSlope, hRate⟩ := exists_hasSlope_geomMean (g := 2) (List.cons_ne_nil f [])
      (ExactConstants.nearest ℚ 1).share (.cons hf .nil) two_pos (by simp [hMagnitude])
    obtain rfl : z.snd = D := by simpa using hRate.symm
    exact hSlope
  have hLeaf : HasSlope i number "x" point (.coordinate .x) (.inl (-2) + .inr 1) :=
    hasSlope_leaf hOver rfl (Interpretation.evaluate_coordinate_eq_ok.mpr
      (by simp [point, Coordinate.index])) (by simp [leafSlope, Coordinate.name])
  have hInner := hRule _ _ hLeaf (by norm_num)
  obtain ⟨slope, hSlope, hMean⟩ := hRule _ _ hInner (by norm_num)
  have hExact : inner.HasExactSlope i number "x" point (.inl 2 + .inr (-1)) := by
    refine (hasExactSlope_geomMean_of_neg (List.cons_ne_nil _ _)
      (.cons ((hasSlope_iff_exact hOver rfl).mp hLeaf) .nil) (by norm_num)).mpr
        ⟨by simp, TrivSqZeroExt.ext ?_ ?_⟩
    · simp
    · simp
  exact ⟨.cons hExact .nil, ⟨_, hInner⟩, two_pos, by norm_num [zs], hMean.value, slope, _,
    hSlope, hMean.slope, by norm_num [zs]⟩

end Formula

end Formulas

import Formulas.Proofs.Arithmetic.Real
import Formulas.Proofs.Binary64.Rounding
import Formulas.Proofs.Formula.Derivative

/-! Derivatives by names that do not occur. In exact real arithmetic they are zero wherever
the formula has a value and no geometric mean of two or more operands vanishes. Where one does,
its rule divides by a power of it, and the derivative of the whole formula is undefined. -/
namespace Formulas

open Arithmetic
open scoped DualNumber

namespace Interpretation

theorem real_integer (n : Nat) : real.constant (.integer n) = some (ofNat n) := by
  show some (some (((n : Int) : ℚ) : ℝ)) = some (some (n : ℝ))
  norm_cast

theorem real_share {count : Nat} (hPos : 1 ≤ count) :
    ∃ r : ℝ, real.constant (.real (Binary64.round false 1 count)) = some (some r) := by
  have hFinite := Binary64.isFinite_round_of_le false (Nat.ne_of_gt hPos) hPos
  refine ⟨((Binary64.round false 1 count).toRat : ℝ), ?_⟩
  simp [real, Constant.exact?, hFinite]

theorem isOver_real : real.IsOver some where
  contains := contains_real
  operation := rfl
  integer := real_integer
  constant hConstant := by
    obtain ⟨q, -, rfl⟩ := Option.map_eq_some_iff.mp hConstant
    exact ⟨(q : ℝ), rfl⟩

/-- The root of a number is defined only if the number is. -/
theorem reflectsRoots_real : ReflectsRoots (some : ℝ → Option ℝ) := by
  intro degree a r hRoot
  obtain ⟨p, hRadicand, -⟩ := Option.map_eq_some_iff.mp hRoot
  exact ⟨p, hRadicand⟩

variable {point : List (Option ℝ)} {f g : Formula} {op : Operation} {operands : List Formula}
  {r : ℝ}

theorem evaluate_geomMean_pair {p q : ℝ} (hf : real.evaluate point f = .ok (some p))
    (hg : real.evaluate point g = .ok (some q)) :
    real.evaluate point (.operation .geomMean [f, g]) = .ok (some (|p * q| ^ (1 / 2 : ℝ))) := by
  refine evaluate_operation_eq_ok.mpr ⟨rfl, _, .cons hf (.cons hg .nil), ?_⟩
  show some (|p * q| ^ (1 / (2 : Nat) : ℝ)) = _
  rw [Nat.cast_ofNat]

/-- Formulas that come to a value, defined or not. -/
theorem keptByRules_real :
    KeptByRules fun f => ∃ a, real.evaluate point f = .ok a where
  integer n _ := ⟨_, isOver_real.evaluate_integer n⟩
  operand hValue f hf := by
    obtain ⟨a, hValue⟩ := hValue
    obtain ⟨-, values, hValues, -⟩ := evaluate_operation_eq_ok.mp hValue
    exact Result.exists_of_forall₂ hValues f hf
  operation {op operands} hArity hOperands := by
    choose! value hValue using hOperands
    refine ⟨_, evaluate_operation_eq_ok.mpr
      ⟨(Operation.admits_of_exactly hArity).mpr rfl, operands.map value, ?_, rfl⟩⟩
    rw [List.forall₂_map_right_iff, List.forall₂_same]
    exact hValue
  count _ hNonempty _ := by
    obtain ⟨r, hShare⟩ := real_share (List.length_pos_iff.mpr hNonempty)
    exact ⟨⟨_, isOver_real.evaluate_integer _⟩, ⟨_, evaluate_constant_eq_ok.mpr hShare⟩⟩

/-- What is undefined in a node is undefined in the whole formula. -/
theorem evaluate_eq_none (hTotal : ∃ a, real.evaluate point f = .ok a)
    (hg : g ∈ f.nodes .depthFirst) (hUndefined : real.evaluate point g = .ok none) :
    real.evaluate point f = .ok none := by
  obtain ⟨_ | r, hValue⟩ := hTotal
  · exact hValue
  · obtain ⟨p, hDefined⟩ := isOver_real.evaluate_node reflectsRoots_real hValue hg
    exact absurd (hUndefined.symm.trans hDefined) (by simp)

variable {j : Jet} {jets : List Jet} {p : ℝ} {ps : List ℝ}

/-- The formula has the real value at the point, and its derivative has the value zero. -/
abbrev IsStill (point : List (Option ℝ)) (j : Jet) (p : ℝ) : Prop :=
  j.Represents real some point (TrivSqZeroExt.inl p)

theorem isStill_of_forall₂ (hSlopes : ∀ j ∈ jets, real.evaluate point j.slope = .ok (some 0))
    (hValues : List.Forall₂ (fun f p => real.evaluate point f = .ok (some p))
      (jets.map Jet.value) ps) : List.Forall₂ (IsStill point) jets ps := by
  rw [List.forall₂_map_left_iff] at hValues
  exact ((List.forall₂_and_left jets ps).mpr ⟨hSlopes, hValues⟩).imp fun _ _ hj => ⟨hj.2, hj.1⟩

/-- Operations without roots keep still what their operands keep still. -/
theorem isStill_operation (hJets : List.Forall₂ (IsStill point) jets ps) (hGives : op.Gives ps r) :
    real.evaluate point (Jet.operationSlope op jets) = .ok (some 0) := by
  have hDual : op.Gives (ps.map TrivSqZeroExt.inl) (TrivSqZeroExt.inl r : ℝ[ε]) :=
    hGives.map (TrivSqZeroExt.inlHom ℝ ℝ)
  exact Jet.Represents.operationSlope isOver_real (List.forall₂_map_right_iff.mpr hJets) hDual

/-- The rule for a geometric mean divides zero by a power of the mean. -/
theorem evaluate_geomMeanSlope (hSlopes : ∀ j ∈ jets, real.evaluate point j.slope = .ok (some 0))
    (hMean : real.evaluate point (.operation .geomMean (jets.map Jet.value)) = .ok (some r)) :
    real.evaluate point (Jet.operationSlope .geomMean jets) =
      .ok (Arithmetic.div (some 0) (some (r ^ (jets.length - 1)))) := by
  obtain ⟨ps, hValues⟩ := isOver_real.evaluate_operands reflectsRoots_real hMean
  have hAdmits := (evaluate_operation_eq_ok.mp hMean).1
  rw [List.length_map] at hAdmits
  obtain ⟨j, rest, rfl⟩ := Operation.exists_cons hAdmits
  obtain ⟨s, hShare⟩ := real_share (Nat.le_add_left 1 rest.length)
  have hNoSlope : TrivSqZeroExt.snd (ps.map (TrivSqZeroExt.inl : ℝ → ℝ[ε])).prod = 0 := by
    rw [show (ps.map TrivSqZeroExt.inl).prod = TrivSqZeroExt.inl (M := ℝ) ps.prod from
      (map_list_prod (TrivSqZeroExt.inlHom ℝ ℝ) ps).symm, TrivSqZeroExt.snd_inl]
  obtain _ | ⟨hj, hRest⟩ := isStill_of_forall₂ hSlopes hValues
  have hSlope := hj.geomMeanSlope isOver_real (List.forall₂_map_right_iff.mpr hRest) hShare hMean
  rw [← List.map_cons, hNoSlope, mul_zero] at hSlope
  exact hSlope

end Interpretation

namespace Formula

open Interpretation (real isOver_real)

/-- A geometric mean of two or more operands in the formula has the value zero at the point. -/
def HasVanishingMean (point : List (Option ℝ)) (f : Formula) : Prop :=
  ∃ operands, .operation .geomMean operands ∈ f.nodes .depthFirst ∧ 2 ≤ operands.length ∧
    real.evaluate point (.operation .geomMean operands) = .ok (some 0)

variable {name : String} {point : List (Option ℝ)} {f g : Formula} {op : Operation}
  {operands : List Formula} {jets : List Jet} {r : ℝ}

theorem hasVanishingMean_operation : HasVanishingMean point (.operation op operands) ↔
    (op = .geomMean ∧ 2 ≤ operands.length ∧
      real.evaluate point (.operation .geomMean operands) = .ok (some 0)) ∨
    ∃ g ∈ operands, g.HasVanishingMean point := by
  constructor
  · rintro ⟨parts, hNode, hTwo, hZero⟩
    rcases mem_nodes_operation.mp hNode with hSelf | ⟨g, hg, hNode⟩
    · obtain ⟨rfl, rfl⟩ := Formula.operation.inj hSelf
      exact .inl ⟨rfl, hTwo, hZero⟩
    · exact .inr ⟨g, hg, parts, hNode, hTwo, hZero⟩
  · rintro (⟨rfl, hTwo, hZero⟩ | ⟨g, hg, parts, hNode, hTwo, hZero⟩)
    · exact ⟨operands, mem_nodes_self _, hTwo, hZero⟩
    · exact ⟨parts, mem_nodes_operation.mpr (.inr ⟨g, hg, hNode⟩), hTwo, hZero⟩

theorem not_hasVanishingMean_leaf (hLeaf : f.isOperation = false) :
    ¬ f.HasVanishingMean point := by
  rintro ⟨operands, hNode, -⟩
  rw [← eq_of_mem_nodes hLeaf hNode] at hLeaf
  exact Bool.noConfusion hLeaf

/-- The derivative of an operation that has a value is zero if those of the operands are, unless
the operation is a vanishing mean. -/
theorem evaluate_operationSlope_zero
    (hValue : real.evaluate point (.operation op (jets.map Jet.value)) = .ok (some r))
    (hSlopes : ∀ j ∈ jets, real.evaluate point j.slope = .ok (some 0))
    (hMean : ¬ HasVanishingMean point (.operation op (jets.map Jet.value))) :
    real.evaluate point (Jet.operationSlope op jets) = .ok (some 0) := by
  by_cases hRoot : op = .geomMean
  · subst hRoot
    have hUnit : IsUnit (r ^ (jets.length - 1)) := by
      rw [isUnit_iff_ne_zero]
      intro hPower
      obtain ⟨rfl, hMore⟩ := pow_eq_zero_iff'.mp hPower
      refine hMean (hasVanishingMean_operation.mpr (.inl ⟨rfl, ?_, hValue⟩))
      rw [List.length_map]
      omega
    exact (Interpretation.evaluate_geomMeanSlope hSlopes hValue).trans
      (congrArg Except.ok (contains_real.div hUnit (zero_mul _)))
  · obtain ⟨ps, hValues, hGives⟩ := (isOver_real.evaluate_operation_eq hRoot).mp hValue
    have hJets := Interpretation.isStill_of_forall₂ hSlopes hValues
    exact Interpretation.isStill_operation hJets hGives

/-- The rule for a vanishing mean of two or more operands divides by zero. -/
theorem evaluate_geomMeanSlope_none (hTwo : 2 ≤ jets.length)
    (hZero : real.evaluate point (.operation .geomMean (jets.map Jet.value)) = .ok (some 0))
    (hSlopes : ∀ j ∈ jets, real.evaluate point j.slope = .ok (some 0)) :
    real.evaluate point (Jet.operationSlope .geomMean jets) = .ok none := by
  have hMore : jets.length - 1 ≠ 0 := by omega
  rw [Interpretation.evaluate_geomMeanSlope hSlopes hZero, zero_pow hMore]
  exact congrArg Except.ok (if_pos rfl)

theorem absent_operand (hAbsent : ∀ which, .coordinate which ∈ leaves (.operation op operands) →
    which.name ≠ name) (hg : g ∈ operands) :
    ∀ which, .coordinate which ∈ g.leaves → which.name ≠ name := by
  intro which hLeaf
  refine hAbsent which ?_
  rw [leaves_operation]
  exact List.mem_flatMap_of_mem hg hLeaf

/-- Where no geometric mean vanishes, the derivative by a name that does not occur is zero. -/
theorem evaluate_derivative_zero {slope : Formula} (hSlope : f.derivative name = .ok slope)
    (hAbsent : ∀ which, .coordinate which ∈ f.leaves → which.name ≠ name)
    (hValue : real.evaluate point f = .ok (some r)) (hMean : ¬ f.HasVanishingMean point) :
    real.evaluate point slope = .ok (some 0) := by
  induction f generalizing slope r with
  | constant value =>
      obtain rfl := Except.ok.inj hSlope
      exact isOver_real.evaluate_zero
  | coordinate which =>
      rw [leaves_of_isOperation_eq_false rfl] at hAbsent
      obtain rfl := Except.ok.inj hSlope
      rw [if_neg (hAbsent which (List.mem_singleton_self _))]
      exact isOver_real.evaluate_zero
  | operation op operands ih =>
      obtain ⟨jets, rfl, hDerivative, hJets⟩ := exists_jets_of_evaluate isOver_real
        Interpretation.reflectsRoots_real name hValue
      obtain rfl := Except.ok.inj (hDerivative.symm.trans hSlope)
      refine evaluate_operationSlope_zero hValue (fun j hj => ?_) hMean
      obtain ⟨-, hPart, p, hPartValue⟩ := hJets j hj
      have hMem : j.value ∈ jets.map Jet.value := List.mem_map_of_mem hj
      have hInner : ¬ j.value.HasVanishingMean point := fun hVanishing =>
        hMean (hasVanishingMean_operation.mpr (.inr ⟨j.value, hMem, hVanishing⟩))
      exact ih _ hMem hPart (absent_operand hAbsent hMem) hPartValue hInner

/-- Where a geometric mean vanishes, the derivative by a name that does not occur is undefined. -/
theorem evaluate_derivative_none {slope : Formula} (hSlope : f.derivative name = .ok slope)
    (hAbsent : ∀ which, .coordinate which ∈ f.leaves → which.name ≠ name)
    (hValue : real.evaluate point f = .ok (some r)) (hMean : f.HasVanishingMean point) :
    real.evaluate point slope = .ok none := by
  induction f generalizing slope r with
  | constant value => exact absurd hMean (not_hasVanishingMean_leaf rfl)
  | coordinate which => exact absurd hMean (not_hasVanishingMean_leaf rfl)
  | operation op operands ih =>
      obtain ⟨jets, rfl, hDerivative, hJets⟩ := exists_jets_of_evaluate isOver_real
        Interpretation.reflectsRoots_real name hValue
      obtain rfl := Except.ok.inj (hDerivative.symm.trans hSlope)
      by_cases hInner : ∃ j ∈ jets, j.value.HasVanishingMean point
      · -- The derivative of the operand is a node of the whole derivative.
        obtain ⟨j, hj, hVanishing⟩ := hInner
        obtain ⟨hNode, hPart, p, hPartValue⟩ := hJets j hj
        have hMem : j.value ∈ jets.map Jet.value := List.mem_map_of_mem hj
        have hUndefined := ih _ hMem hPart (absent_operand hAbsent hMem) hPartValue hVanishing
        have hTotal : ∃ a, real.evaluate point (Jet.operationSlope op jets) = .ok a := by
          have hWellFormed := Interpretation.isWellFormed_of_evaluate hValue
          obtain ⟨slope, hSame, hTotal⟩ :=
            Interpretation.keptByRules_real.exists_derivative name hWellFormed ⟨_, hValue⟩
          rwa [Except.ok.inj (hSlope.symm.trans hSame)]
        exact Interpretation.evaluate_eq_none hTotal hNode hUndefined
      · -- Otherwise the operation itself is the mean that vanishes.
        rcases hasVanishingMean_operation.mp hMean with ⟨rfl, hTwo, hZero⟩ | ⟨g, hg, hVanishing⟩
        · rw [List.length_map] at hTwo
          refine evaluate_geomMeanSlope_none hTwo hZero fun j hj => ?_
          obtain ⟨-, hPart, p, hPartValue⟩ := hJets j hj
          exact evaluate_derivative_zero hPart (absent_operand hAbsent (List.mem_map_of_mem hj))
            hPartValue fun hVanishing => hInner ⟨j, hj, hVanishing⟩
        · obtain ⟨j, hj, rfl⟩ := List.mem_map.mp hg
          exact absurd ⟨j, hj, hVanishing⟩ hInner

/-- Wherever a formula has a value in exact real arithmetic, its derivative by a name that does
not occur in it is zero, unless a geometric mean of two or more operands vanishes there. In
that case, and only then, the derivative is undefined. -/
theorem derivative_of_absent {f : Formula} (name : String) (point : List ℝ) {a : ℝ}
    (hAbsent : ∀ which ∈ f.coordinates, which.name ≠ name)
    (hDefined : real.evaluate (point.map some) f = .ok (some a)) :
    ∃ slope, f.derivative name = .ok slope ∧
      (¬ f.HasVanishingMean (point.map some) →
        real.evaluate (point.map some) slope = .ok (some 0)) ∧
      (f.HasVanishingMean (point.map some) → real.evaluate (point.map some) slope = .ok none) := by
  simp only [mem_coordinates_iff] at hAbsent
  have hWellFormed := Interpretation.isWellFormed_of_evaluate hDefined
  obtain ⟨slope, hSlope⟩ := exists_derivative hWellFormed name
  exact ⟨slope, hSlope, evaluate_derivative_zero hSlope hAbsent hDefined,
    evaluate_derivative_none hSlope hAbsent hDefined⟩

/-- The geometric mean of two coordinates, which is four, by the third coordinate. -/
theorem derivative_of_absent_mean :
    let f : Formula := .operation .geomMean [.coordinate .x, .coordinate .y]
    let point : List ℝ := [2, 8, 5]
    ((∀ which ∈ f.coordinates, which.name ≠ "z") ∧
        real.evaluate (point.map some) f = .ok (some (|2 * 8| ^ (1 / 2 : ℝ)))) ∧
      ¬ f.HasVanishingMean (point.map some) ∧
      ∃ slope, f.derivative "z" = .ok slope ∧
        real.evaluate (point.map some) slope = .ok (some 0) := by
  intro f point
  have hAbsent : ∀ which ∈ f.coordinates, which.name ≠ "z" := by decide +kernel
  have hDefined : real.evaluate (point.map some) f = .ok (some (|2 * 8| ^ (1 / 2 : ℝ))) :=
    Interpretation.evaluate_geomMean_pair rfl rfl
  have hMean : ¬ f.HasVanishingMean (point.map some) := by
    intro hVanishing
    rcases hasVanishingMean_operation.mp hVanishing with ⟨-, -, hZero⟩ | ⟨g, hg, hInner⟩
    · have hPositive : (0 : ℝ) < |2 * 8| ^ (1 / 2 : ℝ) := Real.rpow_pos_of_pos (by norm_num) _
      exact hPositive.ne' (Option.some.inj (Except.ok.inj (hDefined.symm.trans hZero)))
    · rcases List.mem_pair.mp hg with rfl | rfl
      · exact not_hasVanishingMean_leaf rfl hInner
      · exact not_hasVanishingMean_leaf rfl hInner
  obtain ⟨slope, hSlope, hStill, -⟩ := derivative_of_absent "z" point hAbsent hDefined
  exact ⟨⟨hAbsent, hDefined⟩, hMean, slope, hSlope, hStill hMean⟩

/-- Where one of two coordinates is zero, so is their geometric mean, but its derivative by a
name that is no coordinate divides zero by zero. -/
theorem derivative_of_absent_undefined :
    let f : Formula := .operation .geomMean [.coordinate .x, .coordinate .y]
    let point : List ℝ := [0, 1, 0]
    ((∀ which ∈ f.coordinates, which.name ≠ "w") ∧
        real.evaluate (point.map some) f = .ok (some 0)) ∧
      ∃ slope, f.derivative "w" = .ok slope ∧
        real.evaluate (point.map some) slope = .ok none := by
  intro f point
  have hAbsent : ∀ which ∈ f.coordinates, which.name ≠ "w" := by decide +kernel
  have hDefined : real.evaluate (point.map some) f = .ok (some 0) := by
    rw [Interpretation.evaluate_geomMean_pair (p := 0) (q := 1) rfl rfl]
    simp
  have hVanishing : f.HasVanishingMean (point.map some) :=
    ⟨_, mem_nodes_self f, Nat.le_refl 2, hDefined⟩
  have hWellFormed := Interpretation.isWellFormed_of_evaluate hDefined
  obtain ⟨slope, hSlope⟩ := exists_derivative hWellFormed "w"
  refine ⟨⟨hAbsent, hDefined⟩, slope, hSlope,
    evaluate_derivative_none hSlope (fun which hLeaf => hAbsent which ?_) hDefined hVanishing⟩
  exact mem_coordinates_iff.mpr hLeaf

end Formula

end Formulas

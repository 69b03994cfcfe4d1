import Formulas.Proofs.Arithmetic.Exact
import Mathlib.Algebra.Order.Field.Basic
import Mathlib.Tactic.LinearCombination

/-! Exact arithmetic of an ordered field. A division by zero has no result, and a root has one
where the field holds it. -/
namespace Formulas

open scoped DualNumber

/-- A number of a field, or nothing where an operation has no result in it. -/
def Defined (K : Type) : Type :=
  Option K

namespace Defined

def number {K : Type} : K → Defined K :=
  some

variable {K : Type} [Field K] [LinearOrder K]

open scoped Classical in
/-- The nonnegative root of the magnitude, if there is one in the field. -/
noncomputable def root (degree : Nat) (p : K) : Defined K :=
  if hRoot : ∃ g, 0 ≤ g ∧ g ^ degree = |p| then number hRoot.choose else none

noncomputable instance : Arithmetic (Defined K) where
  ofNat n := number n
  add := Option.map₂ (· + ·)
  sub := Option.map₂ (· - ·)
  mul := Option.map₂ (· * ·)
  div a b := a.bind fun p => b.bind fun q => if q = 0 then none else some (p / q)
  neg := Option.map (- ·)
  root degree a := a.bind (root degree)

/-- Exact arithmetic of an ordered field contains the field. -/
theorem contains : Arithmetic.Contains (number (K := K)) where
  injective := Option.some_injective K
  ofNat _ := rfl
  add_eq := Option.map₂_eq_some_iff
  sub_eq := Option.map₂_eq_some_iff
  mul_eq := Option.map₂_eq_some_iff
  div_eq := Option.div_eq_some
  neg_eq := Option.map_eq_some_iff

/-- The root of a number is defined only if the number is. -/
theorem reflectsRoots : Arithmetic.ReflectsRoots (number (K := K)) := by
  intro degree a r hRoot
  obtain ⟨p, hRadicand, -⟩ := Option.bind_eq_some_iff.mp hRoot
  exact ⟨p, hRadicand⟩

theorem root_neg (degree : Nat) (p : K) : root degree (-p) = root degree p := by
  rw [root, root, abs_neg]

variable [IsStrictOrderedRing K]

/-- There is one nonnegative root at most. -/
theorem root_eq_iff {degree : Nat} {p g : K} (hDegree : degree ≠ 0) :
    root degree p = number g ↔ 0 ≤ g ∧ g ^ degree = |p| := by
  constructor
  · intro hRoot
    by_cases hExists : ∃ g, 0 ≤ g ∧ g ^ degree = |p|
    · obtain rfl : hExists.choose = g := Option.some.inj ((dif_pos hExists).symm.trans hRoot)
      exact hExists.choose_spec
    · exact nomatch (dif_neg hExists).symm.trans hRoot
  · intro hg
    have hExists : ∃ g, 0 ≤ g ∧ g ^ degree = |p| := ⟨g, hg⟩
    refine (dif_pos hExists).trans (congrArg number ?_)
    obtain ⟨hChosen, hChosenPower⟩ := hExists.choose_spec
    exact (pow_left_inj₀ hChosen hg.1 hDegree).mp (hChosenPower.trans hg.2.symm)

omit [LinearOrder K] [IsStrictOrderedRing K] in
/-- The two ways to write the slope of a root: over the radicand, and over a power of the root. -/
theorem mul_radicand_eq_iff {degree : Nat} {g p change slope : K} (hDegree : degree ≠ 0)
    (hNonzero : g ≠ 0) (hPower : g ^ degree = p) :
    slope * (degree * p) = g * change ↔ degree * g ^ (degree - 1) * slope = change := by
  obtain ⟨less, rfl⟩ := Nat.exists_eq_succ_of_ne_zero hDegree
  have hSplit : slope * ((less + 1 : Nat) * p) = g * ((less + 1 : Nat) * g ^ less * slope) := by
    rw [← hPower, Nat.succ_eq_add_one, pow_succ]
    ring
  rw [Nat.succ_eq_add_one, hSplit, Nat.add_sub_cancel]
  exact mul_right_inj' hNonzero

/-- The slope of a root of a positive value. -/
theorem dual_root_slope_eq_iff {degree : Nat} {g slope : K} {w : K[ε]} (hDegree : degree ≠ 0)
    (hw : 0 < w.fst) (hPower : g ^ degree = w.fst) :
    Arithmetic.div (Arithmetic.mul (number g) (number w.snd))
        (Arithmetic.mul (Arithmetic.ofNat degree) (number w.fst)) = number slope ↔
      degree * g ^ (degree - 1) * slope = w.snd := by
  have hNonzero : g ≠ 0 := by
    rintro rfl
    exact hw.ne ((zero_pow hDegree).symm.trans hPower)
  have hUnit : IsUnit ((degree : K) * w.fst) :=
    isUnit_iff_ne_zero.mpr (mul_ne_zero (Nat.cast_ne_zero.mpr hDegree) hw.ne')
  rw [contains.mul, contains.ofNat, contains.mul,
    ← mul_radicand_eq_iff hDegree hNonzero hPower]
  constructor
  · intro hQuotient
    obtain ⟨_, _, hLeft, hRight, -, hProduct⟩ := contains.div_eq.mp hQuotient
    rw [contains.injective hLeft, contains.injective hRight, hProduct]
  · exact contains.div hUnit

/-- The root of a dual number with a positive value is the one whose power it is. -/
theorem dual_root_eq_iff {degree : Nat} {w z : K[ε]} (hDegree : degree ≠ 0) (hw : 0 < w.fst) :
    Arithmetic.root degree (Dual.pair number w) = Dual.pair number z ↔
      0 < z.fst ∧ z ^ degree = w := by
  have hParts : Arithmetic.root degree (Dual.pair number w) = Dual.pair number z ↔
      root degree w.fst = number z.fst ∧
        Arithmetic.div (Arithmetic.mul (root degree w.fst) (number w.snd))
          (Arithmetic.mul (Arithmetic.ofNat degree) (number w.fst)) = number z.snd :=
    ⟨Dual.mk.inj, fun hBoth => congrArg₂ Dual.mk hBoth.1 hBoth.2⟩
  rw [hParts, TrivSqZeroExt.ext_iff, TrivSqZeroExt.fst_pow, TrivSqZeroExt.snd_pow, nsmul_eq_mul,
    smul_eq_mul, ← mul_assoc]
  constructor
  · rintro ⟨hRoot, hSlope⟩
    rw [hRoot] at hSlope
    obtain ⟨hNonneg, hPower⟩ := (root_eq_iff hDegree).mp hRoot
    rw [abs_of_pos hw] at hPower
    refine ⟨hNonneg.lt_of_ne ?_, hPower, (dual_root_slope_eq_iff hDegree hw hPower).mp hSlope⟩
    intro hZero
    rw [← hZero, zero_pow hDegree] at hPower
    exact hw.ne hPower
  · rintro ⟨hPositive, hPower, hSlope⟩
    have hRoot : root degree w.fst = number z.fst :=
      (root_eq_iff hDegree).mpr ⟨hPositive.le, hPower.trans (abs_of_pos hw).symm⟩
    rw [hRoot]
    exact ⟨rfl, (dual_root_slope_eq_iff hDegree hw hPower).mpr hSlope⟩

omit [IsStrictOrderedRing K] in
/-- The root does not depend on the sign. -/
theorem dual_root_neg (degree : Nat) (w : K[ε]) :
    Arithmetic.root degree (Dual.pair number (-w)) =
      Arithmetic.root degree (Dual.pair number w) := by
  have hValue : root degree (-w).fst = root degree w.fst := by
    rw [TrivSqZeroExt.fst_neg, root_neg]
  have hSlope (a : Defined K) :
      Arithmetic.div (Arithmetic.mul a (number (-w).snd))
          (Arithmetic.mul (Arithmetic.ofNat degree) (number (-w).fst)) =
        Arithmetic.div (Arithmetic.mul a (number w.snd))
          (Arithmetic.mul (Arithmetic.ofNat degree) (number w.fst)) := by
    cases a with
    | none => rfl
    | some g =>
        show (if (degree : K) * (-w).fst = 0 then none else _) =
          if (degree : K) * w.fst = 0 then none else some (g * w.snd / (degree * w.fst))
        simp [neg_div_neg_eq]
  show Dual.mk (root degree (-w).fst) (Arithmetic.div (Arithmetic.mul (root degree (-w).fst) _) _) =
    _
  rw [hValue]
  exact congrArg (Dual.mk _) (hSlope _)

end Defined

end Formulas

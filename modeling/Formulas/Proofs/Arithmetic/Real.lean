import Formulas.Proofs.Arithmetic.Exact
import Mathlib.Analysis.SpecialFunctions.Pow.Real

/-! Exact arithmetic of real numbers, in which a division by zero has no result and every
root of a magnitude has one. -/
namespace Formulas

noncomputable instance : Arithmetic (Option ℝ) where
  ofNat n := some n
  add := Option.map₂ (· + ·)
  sub := Option.map₂ (· - ·)
  mul := Option.map₂ (· * ·)
  div a b := a.bind fun p => b.bind fun q => if q = 0 then none else some (p / q)
  neg := Option.map (- ·)
  root degree := Option.map fun p => |p| ^ (1 / degree : ℝ)

/-- Exact real arithmetic on finite constants. -/
noncomputable def Interpretation.real : Interpretation (Option ℝ) where
  constant value := value.exact?.map fun q => some (q : ℝ)
  operation := Arithmetic.combine

/-- Exact arithmetic contains the real numbers. -/
theorem contains_real : Arithmetic.Contains (some : ℝ → Option ℝ) where
  injective := Option.some_injective ℝ
  ofNat _ := rfl
  add_eq := Option.map₂_eq_some_iff
  sub_eq := Option.map₂_eq_some_iff
  mul_eq := Option.map₂_eq_some_iff
  div_eq := Option.div_eq_some
  neg_eq := Option.map_eq_some_iff

end Formulas

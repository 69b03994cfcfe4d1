import Formulas.Arithmetic.Extended
import Formulas.Formula.Evaluation
import Formulas.Proofs.Arithmetic.Contains
import Mathlib.Algebra.Field.Rat
import Mathlib.Data.Option.NAry

/-! Exact arithmetic of rational numbers, in which a division by zero has no result. -/
namespace Formulas

/-- A rational number, or nothing where there was a division by zero. -/
abbrev Exact := Option ℚ

/-- The rational number, unless it is a pole or undefined. -/
def Extended.finite? : Extended → Exact
  | .finite a => some a
  | _ => none

instance : Arithmetic Exact where
  ofNat n := some n
  add := Option.map₂ (· + ·)
  sub := Option.map₂ (· - ·)
  mul := Option.map₂ (· * ·)
  div a b := a.bind fun p => b.bind fun q => if q = 0 then none else some (p / q)
  neg := Option.map (- ·)
  root degree a := a.bind fun p => (Extended.root degree (.finite p)).finite?

/-- The exact value of a constant that is a number. -/
def Constant.exact? : Constant → Exact
  | .integer n => some n
  | .real x => if x.isFinite then some x.toRat else none

/-- Exact arithmetic on finite constants. -/
def Interpretation.exact : Interpretation Exact where
  constant value := value.exact?.map some
  operation := Arithmetic.combine

/-- Division of what may be undefined, where a division by zero is undefined. -/
theorem Option.div_eq_some {K : Type} [Field K] [DecidableEq K] {a b : Option K} {r : K} :
    (a.bind fun p => b.bind fun q => if q = 0 then none else some (p / q)) = some r ↔
      ∃ p q, a = some p ∧ b = some q ∧ IsUnit q ∧ r * q = p := by
  simp only [Option.bind_eq_some_iff, Option.ite_none_left_eq_some, Option.some.injEq,
    isUnit_iff_ne_zero]
  constructor
  · rintro ⟨p, rfl, q, rfl, hNonzero, rfl⟩
    exact ⟨p, q, rfl, rfl, hNonzero, div_mul_cancel₀ p hNonzero⟩
  · rintro ⟨p, q, rfl, rfl, hNonzero, rfl⟩
    exact ⟨_, rfl, q, rfl, hNonzero, mul_div_cancel_right₀ r hNonzero⟩

/-- Exact arithmetic contains the rational numbers. -/
theorem contains_exact : Arithmetic.Contains (some : ℚ → Exact) where
  injective := Option.some_injective ℚ
  ofNat _ := rfl
  add_eq := Option.map₂_eq_some_iff
  sub_eq := Option.map₂_eq_some_iff
  mul_eq := Option.map₂_eq_some_iff
  div_eq := Option.div_eq_some
  neg_eq := Option.map_eq_some_iff

end Formulas

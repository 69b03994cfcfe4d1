import Formulas.Arithmetic.Basic
/-! Dual numbers: a value together with its rate of change along one direction. -/
namespace Formulas

/-- The number `value + slope * ε`, where the square of `ε` is zero. -/
structure Dual (α : Type) where
  value : α
  slope : α
  deriving DecidableEq

open Arithmetic in
/-- The root of degree `n` with value `g` of a magnitude `p` changes by `g / (n * p)` for
every unit that the number changes. -/
instance {α : Type} [Arithmetic α] : Arithmetic (Dual α) where
  ofNat n := ⟨ofNat n, ofNat 0⟩
  add a b := ⟨add a.value b.value, add a.slope b.slope⟩
  sub a b := ⟨sub a.value b.value, sub a.slope b.slope⟩
  mul a b := ⟨mul a.value b.value, add (mul a.slope b.value) (mul a.value b.slope)⟩
  div a b :=
    ⟨div a.value b.value,
      div (sub (mul a.slope b.value) (mul a.value b.slope)) (mul b.value b.value)⟩
  neg a := ⟨neg a.value, neg a.slope⟩
  root degree a :=
    let value := root degree a.value
    ⟨value, div (mul value a.slope) (mul (ofNat degree) a.value)⟩

end Formulas

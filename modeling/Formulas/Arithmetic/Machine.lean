import Formulas.Arithmetic.Basic
import Formulas.Binary64.Hardware
/-! Arithmetic of the machine's double precision numbers. Every operation rounds once;
a root is a power with the rounded reciprocal of the degree. -/
namespace Formulas

instance : Arithmetic Float where
  ofNat n := (Binary64.ofInt n).toFloat
  add := Float.add
  sub := Float.sub
  mul := Float.mul
  div := Float.div
  neg := Float.neg
  root degree a := Float.pow a.abs (1.0 / (Binary64.ofInt degree).toFloat)

end Formulas

import Formulas.Binary64.Basic
/-! Rounding an exact ratio to the nearest double precision number, a tie going to
the even mantissa. A ratio at or beyond half a unit above the largest finite number
becomes an infinity. -/
namespace Formulas

open scoped Natural

/-- The integer nearest to `num / den`; a half goes to the even neighbour. -/
def roundHalfEven (num den : Nat) : Nat :=
  let quotient := num / den
  let remainder := num % den
  if 2 * remainder < den ∨ (2 * remainder = den ∧ quotient % 2 = 0) then quotient
  else quotient + 1

/-- The ratio `num / (den * base ^ power)` as a pair of natural numbers. -/
def scaledRatio (base num den : Nat) (power : Int) : Nat × Nat :=
  if 0 ≤ power then (num, den * base ^ power.toNat)
  else (num * base ^ (-power).toNat, den)

namespace Binary64

/-- The least exponent at which `num / den` has at most 53 binary digits before the point. -/
def fittingExponent (num den : Nat) : Int :=
  let guess : Int := (num.log2 : Int) - den.log2 - 53
  let scaled := scaledRatio 2 num den guess
  if scaled.1 / scaled.2 < 2 ^ (53 : Nat) then guess else guess + 1

/-- The exponent of the canonical form that represents `num / den` with the most digits. -/
def roundingExponent (num den : Nat) : Int :=
  max (fittingExponent num den) (-1074)

/-- The datum of a mantissa of at most 53 digits, or of the carry `2 ^ 53`. -/
def assemble (negative : Bool) (mantissa : Nat) (exponent : Int) : Binary64 :=
  if h : Canonical mantissa exponent then .finite negative mantissa exponent h
  else if h : Canonical (mantissa / 2) (exponent + 1) then
    .finite negative (mantissa / 2) (exponent + 1) h
  else .infinite negative

/-- The datum nearest to `num / den` with the given sign. -/
def round (negative : Bool) (num den : Nat) : Binary64 :=
  if num = 0 then zero negative
  else
    let exponent := roundingExponent num den
    let scaled := scaledRatio 2 num den exponent
    assemble negative (roundHalfEven scaled.1 scaled.2) exponent

/-- The datum nearest to an integer. -/
def ofInt (n : Int) : Binary64 :=
  round (decide (n < 0)) n.natAbs 1

end Binary64

end Formulas

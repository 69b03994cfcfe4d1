import Formulas.Binary64.Rounding
/-! Decimal numbers, a signed coefficient times a power of ten, and the double
precision number nearest to one. -/
namespace Formulas

/-- The number `coefficient * 10 ^ exponent`, negated if `negative`. -/
structure Decimal where
  negative : Bool
  coefficient : Nat
  exponent : Int
  deriving DecidableEq

namespace Decimal

/-- The magnitude is at least `10 ^ 310`, beyond every finite double precision number. -/
def isVast (d : Decimal) : Bool :=
  decide (310 ≤ (d.coefficient.log2 / 4 : Nat) + d.exponent)

/-- The magnitude is below `10 ^ (-330)`, less than half the least positive number. -/
def isTiny (d : Decimal) : Bool :=
  decide ((d.coefficient.log2 / 3 + 1 : Nat) + d.exponent < -330)

/-- The nearest double precision number. The two bounds on the magnitude answer
for exponents whose power of ten would be too long to write out. -/
def toBinary64 (d : Decimal) : Binary64 :=
  if d.coefficient = 0 then .zero d.negative
  else if d.isVast then .infinite d.negative
  else if d.isTiny then .zero d.negative
  else
    let scaled := scaledRatio 10 d.coefficient 1 (-d.exponent)
    .round d.negative scaled.1 scaled.2

/-- The same number without zeros at the end of the coefficient. -/
def trim (negative : Bool) (coefficient : Nat) (exponent : Int) : Decimal :=
  if coefficient ≠ 0 ∧ coefficient % 10 = 0 then trim negative (coefficient / 10) (exponent + 1)
  else ⟨negative, coefficient, exponent⟩
termination_by coefficient
decreasing_by omega

end Decimal

end Formulas

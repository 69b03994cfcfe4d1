import Formulas.Binary64.Rounding
/-! The 64-bit pattern of a double precision number, and the passage to and from the
machine's own floating point numbers. -/
namespace Formulas.Binary64

open scoped Natural

/-- One sign bit, eleven bits of biased exponent, 52 bits of fraction. -/
def toBits : Binary64 → UInt64
  | .nan _ => 0x7FF8000000000000
  | .infinite negative => if negative then 0xFFF0000000000000 else 0x7FF0000000000000
  | .finite negative mantissa exponent _ =>
    let magnitude :=
      if mantissa < 2 ^ (52 : Nat) then mantissa
      else (exponent + 1075).toNat * 2 ^ (52 : Nat) + (mantissa - 2 ^ (52 : Nat))
    UInt64.ofNat (if negative then 2 ^ (63 : Nat) + magnitude else magnitude)

/-- Every pattern that stands for no number is read with label zero. -/
def ofBits (bits : UInt64) : Binary64 :=
  let word := bits.toNat
  let negative := decide (2 ^ (63 : Nat) ≤ word)
  let biased : Nat := word / 2 ^ (52 : Nat) % 2 ^ (11 : Nat)
  let fraction := word % 2 ^ (52 : Nat)
  if biased = 2047 then
    if fraction = 0 then .infinite negative else .nan 0
  else if biased = 0 then assemble negative fraction (-1074)
  else assemble negative (2 ^ (52 : Nat) + fraction) ((biased : Int) - 1075)

def toFloat (x : Binary64) : Float :=
  Float.ofBits x.toBits

def ofFloat (x : Float) : Binary64 :=
  ofBits x.toBits

end Formulas.Binary64

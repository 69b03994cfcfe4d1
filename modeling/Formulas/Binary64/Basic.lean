import Formulas.Natural
/-! Double precision numbers as exact data: a sign, a mantissa and a power of two,
the two infinities, and the data that are not numbers. The pair of mantissa and
exponent is the canonical one, so two finite data are equal exactly when they have
the same sign and the same value. -/
namespace Formulas

open scoped Natural

/-- The mantissa has at most 53 binary digits, and fewer only at the least exponent. -/
def Binary64.Canonical (mantissa : Nat) (exponent : Int) : Prop :=
  mantissa < 2 ^ (53 : Nat) ∧ -1074 ≤ exponent ∧ exponent ≤ 971 ∧
    (mantissa < 2 ^ (52 : Nat) → exponent = -1074)

instance (mantissa : Nat) (exponent : Int) : Decidable (Binary64.Canonical mantissa exponent) :=
  inferInstanceAs (Decidable (_ ∧ _ ∧ _ ∧ (_ → _)))

/-- A finite datum stands for `mantissa * 2 ^ exponent`, negated if `negative`.
A datum that is not a number carries the label of the place it came from. -/
inductive Binary64 where
  | nan (label : Nat)
  | infinite (negative : Bool)
  | finite (negative : Bool) (mantissa : Nat) (exponent : Int)
      (canonical : Binary64.Canonical mantissa exponent)
  deriving DecidableEq

namespace Binary64

/-- Zero with the given sign. -/
def zero (negative : Bool) : Binary64 :=
  .finite negative 0 (-1074) (by decide)

instance : Inhabited Binary64 := ⟨zero false⟩

def isFinite : Binary64 → Bool
  | .finite .. => true
  | _ => false

def isNegative : Binary64 → Bool
  | .nan _ => false
  | .infinite negative => negative
  | .finite negative _ _ _ => negative

/-- The exact value of a finite datum; the others are given the value zero. -/
def toRat : Binary64 → Rat
  | .finite negative mantissa exponent _ =>
    let magnitude := (mantissa : Rat) * (2 : Rat) ^ exponent
    if negative then -magnitude else magnitude
  | _ => 0

/-- The exact value of a finite datum that has no fraction. -/
def toInt? : Binary64 → Option Int
  | .finite negative mantissa exponent _ =>
    let magnitude? :=
      if 0 ≤ exponent then some (mantissa * 2 ^ exponent.toNat)
      else if mantissa % 2 ^ (-exponent).toNat = 0 then some (mantissa / 2 ^ (-exponent).toNat)
      else none
    magnitude?.map fun magnitude => if negative then -(magnitude : Int) else magnitude
  | _ => none

end Binary64

end Formulas

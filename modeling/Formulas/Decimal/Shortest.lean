import Formulas.Decimal.Basic
/-! The shortest decimal that reads back as a given double precision number. For one,
two, up to seventeen digits the two neighbours of the value on that decimal grid are
tried; the first grid with a neighbour that reads back wins, and of two neighbours
the nearer one, a tie going to the even digit. -/
namespace Formulas.Binary64

open scoped Natural

/-- The power of ten of the first digit of `num / den`, for a positive ratio. -/
def leadingPower (num den : Nat) : Int :=
  let guess : Int := Int.fdiv (((num.log2 : Int) - den.log2) * 30103) 100000
  let fits (power : Int) : Bool :=
    let scaled := scaledRatio 10 num den power
    decide (scaled.1 < scaled.2)
  if fits guess then guess - 1
  else if fits (guess + 1) then guess
  else if fits (guess + 2) then guess + 1
  else guess + 2

/-- The neighbours of `num / den` on the grid of the multiples of `10 ^ power`, nearer first. -/
def neighbours (num den : Nat) (power : Int) : List Nat :=
  let scaled := scaledRatio 10 num den power
  let below := scaled.1 / scaled.2
  let nearest := roundHalfEven scaled.1 scaled.2
  if nearest = below then [below, below + 1] else [below + 1, below]

/-- The first neighbour on the grid of so many digits that reads back. -/
def readsBackWith? (x : Binary64) (negative : Bool) (num den : Nat) (first : Int)
    (digits : Nat) : Option Decimal :=
  let power := first - (digits : Int) + 1
  ((neighbours num den power).map fun c => Decimal.trim negative c power).find?
    fun d => d.toBinary64 = x

/-- All digits of a finite value. -/
def exactDecimal (negative : Bool) (mantissa : Nat) (exponent : Int) : Decimal :=
  if 0 ≤ exponent then Decimal.trim negative (mantissa * 2 ^ exponent.toNat) 0
  else Decimal.trim negative (mantissa * 5 ^ (-exponent).toNat) exponent

/-- The shortest decimal that reads back as a finite number. -/
def shortest? (x : Binary64) : Option Decimal :=
  match x with
  | .finite negative mantissa exponent _ =>
    if mantissa = 0 then some ⟨negative, 0, 0⟩
    else
      let ratio := scaledRatio 2 mantissa 1 (-exponent)
      let first := leadingPower ratio.1 ratio.2
      some (((List.range 17).findSome? fun k =>
        readsBackWith? x negative ratio.1 ratio.2 first (k + 1)).getD
          (exactDecimal negative mantissa exponent))
  | _ => none

end Formulas.Binary64

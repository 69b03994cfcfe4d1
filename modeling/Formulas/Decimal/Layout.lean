import Formulas.Decimal.Shortest
/-! The texts of double precision numbers: the shortest text that reads back, and the
text with a fixed number of places in scientific form. -/
namespace Formulas

open scoped Natural

namespace Decimal

/-- The exponent mark, its sign, and at least two digits. -/
def exponentText (exponent : Int) : String :=
  let digits := toString exponent.natAbs
  let padded := if digits.length < 2 then "0" ++ digits else digits
  "e" ++ (if exponent < 0 then "-" else "+") ++ padded

/-- The digits before and after a point that follows the first `whole` digits. -/
def pointText (digits : List Char) (whole : Nat) : String :=
  let fraction := digits.drop whole
  String.ofList (digits.take whole) ++
    (if fraction.isEmpty then "" else "." ++ String.ofList fraction)

/-- The unsigned text of digits whose first one has the power `first`. Powers from
minus four to fifteen are written out, with `.0` after an integer; all others are
written with an exponent. -/
def layout (digits : List Char) (first : Int) : String :=
  if first < -4 ∨ 16 ≤ first then
    pointText digits 1 ++ exponentText first
  else if first < 0 then
    "0." ++ String.ofList (List.replicate (-first - 1).toNat '0' ++ digits)
  else if digits.length ≤ first.toNat + 1 then
    String.ofList (digits ++ List.replicate (first.toNat + 1 - digits.length) '0') ++ ".0"
  else pointText digits (first.toNat + 1)

/-- The text of a decimal. -/
def text (d : Decimal) : String :=
  let digits := (toString d.coefficient).toList
  (if d.negative then "-" else "") ++ layout digits (d.exponent + digits.length - 1)

end Decimal

namespace Binary64

/-- The shortest text that reads back, or the name of an infinity or of no number. -/
def text (x : Binary64) : String :=
  match x with
  | .nan _ => "nan"
  | .infinite negative => if negative then "-inf" else "inf"
  | .finite .. =>
    match x.shortest? with
    | some d => d.text
    | none => "nan"

/-- The digits of `num / den` rounded to so many places after the first, with the
power of the first digit. A carry past the first digit raises the power. -/
def roundedDigits (num den places : Nat) : Nat × Int :=
  let first := leadingPower num den
  let scaled := scaledRatio 10 num den (first - places)
  let digits := roundHalfEven scaled.1 scaled.2
  if digits < 10 ^ (places + 1) then (digits, first) else (digits / 10, first + 1)

/-- The value rounded to so many places after the first digit, always with an exponent. -/
def scientificText (places : Nat) (x : Binary64) : String :=
  match x with
  | .nan _ => "nan"
  | .infinite negative => if negative then "-inf" else "inf"
  | .finite negative mantissa exponent _ =>
    let ratio := scaledRatio 2 mantissa 1 (-exponent)
    let rounded := if mantissa = 0 then (0, 0) else roundedDigits ratio.1 ratio.2 places
    let digits := (toString rounded.1).toList
    let padded := List.replicate (places + 1 - digits.length) '0' ++ digits
    (if negative then "-" else "") ++ Decimal.pointText padded 1 ++ Decimal.exponentText rounded.2

end Binary64

end Formulas

import Formulas.Arithmetic.Basic
import Formulas.Numeral
/-! Exact rational numbers with a pole, which is one divided by zero, and with the
undefined results of arithmetic on poles. -/
namespace Formulas

open scoped Natural

inductive Extended where
  | finite (value : Rat)
  | pole
  | undefined
  deriving DecidableEq

namespace Extended

instance : Inhabited Extended := ⟨.undefined⟩

/-- Two poles have no sum. -/
def add : Extended → Extended → Extended
  | .finite a, .finite b => .finite (a + b)
  | .finite _, .pole => .pole
  | .pole, .finite _ => .pole
  | _, _ => .undefined

/-- A pole times zero is undefined. -/
def mul : Extended → Extended → Extended
  | .finite a, .finite b => .finite (a * b)
  | .finite a, .pole => if a = 0 then .undefined else .pole
  | .pole, .finite b => if b = 0 then .undefined else .pole
  | .pole, .pole => .pole
  | _, _ => .undefined

/-- Zero and the pole are reciprocal to each other. -/
def inverse : Extended → Extended
  | .finite a => if a = 0 then .pole else .finite (1 / a)
  | .pole => .finite 0
  | .undefined => .undefined

def neg (a : Extended) : Extended :=
  mul (.finite (-1)) a

/-- Descends from a number whose power of the given degree exceeds `n` towards the greatest
one whose power does not, in at most `steps` steps. Each step goes where the tangent of the
power at `above` takes the value `n`, which is never below that number. -/
def descendToRoot (degree n above : Nat) : Nat → Nat
  | 0 => above
  | steps + 1 =>
    let next := ((degree - 1) * above + n / above ^ (degree - 1)) / degree
    if next < above then descendToRoot degree n next steps else above

/-- The greatest natural number whose power of the given degree does not exceed `n`. -/
def floorRoot (degree n : Nat) : Nat :=
  descendToRoot degree n (2 ^ (n.log2 / degree + 1)) (n.log2 + degree + 2)

/-- The root of a natural number, if it is a natural number. -/
def exactRoot? (degree n : Nat) : Option Nat :=
  let found := floorRoot degree n
  if found ^ degree = n then some found else none

/-- The rational root of the magnitude, if it has one. -/
def root (degree : Nat) : Extended → Extended
  | .finite a =>
    match exactRoot? degree a.num.natAbs, exactRoot? degree a.den with
    | some num, some den => .finite ((num : Rat) / (den : Rat))
    | _, _ => .undefined
  | .pole => .pole
  | .undefined => .undefined

instance : Arithmetic Extended where
  ofNat n := .finite n
  add := add
  sub a b := add a (neg b)
  mul := mul
  div a b := mul a (inverse b)
  neg := neg
  root := root

/-- The numerator, and the denominator if it is not one. -/
def text : Extended → String
  | .finite a =>
    if a.den = 1 then toString a.num else toString a.num ++ "/" ++ toString a.den
  | .pole => "zoo"
  | .undefined => "nan"

/-- No integer of the text exceeds the digit limit. -/
def isWritable : Extended → Bool
  | .finite a => Numeral.isWritable a.num.natAbs && Numeral.isWritable a.den
  | _ => true

/-- The text, if it can be written. -/
def text? (a : Extended) : Option String :=
  if a.isWritable then some a.text else none

end Extended

end Formulas

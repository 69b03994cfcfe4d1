import Formulas.Decimal.Layout
/-! Constants of formulas: integers of any size and double precision numbers. The two
kinds stay distinct, yet they agree when their exact values do. -/
namespace Formulas

inductive Constant where
  | integer (value : Int)
  | real (value : Binary64)
  deriving DecidableEq

namespace Constant

/-- A real without a fraction becomes the integer of the same value; all other
constants stay as they are. -/
def normal : Constant → Constant
  | .integer n => .integer n
  | .real x =>
    match x.toInt? with
    | some n => .integer n
    | none => .real x

/-- Two constants agree when they have the same exact value. -/
def agrees (a b : Constant) : Bool :=
  a.normal = b.normal

/-- A text that shows the kind: a real without a fraction ends in `.0`. -/
def literal : Constant → String
  | .integer n => toString n
  | .real x => x.text

/-- The text within a formula: an exact value without a fraction is written as an integer. -/
def text (c : Constant) : String :=
  c.normal.literal

/-- A constant that stands for a number: an integer or a finite real. -/
def isFinite : Constant → Bool
  | .integer _ => true
  | .real x => x.isFinite

/-- The nearest double precision number, or nothing for an integer beyond the largest one. -/
def toBinary64? : Constant → Option Binary64
  | .integer n =>
    let x := Binary64.ofInt n
    if x.isFinite then some x else none
  | .real x => some x

/-- Constants that agree have the same digest. -/
def digest (c : Constant) : UInt64 :=
  match c.normal with
  | .integer n => mixHash 11 (hash n)
  | .real (.nan label) => mixHash 13 (hash label)
  | .real (.infinite negative) => mixHash 17 (hash negative)
  | .real (.finite negative mantissa exponent _) =>
    mixHash (mixHash 19 (hash negative)) (mixHash (hash mantissa) (hash exponent))

theorem normal_integer (n : Int) : normal (.integer n) = .integer n := rfl

theorem agrees_iff {a b : Constant} : a.agrees b = true ↔ a.normal = b.normal := by
  simp [agrees]

theorem text_eq_of_agrees {a b : Constant} (hAgrees : a.agrees b = true) : a.text = b.text := by
  simp [text, agrees_iff.mp hAgrees]

theorem digest_eq_of_agrees {a b : Constant} (hAgrees : a.agrees b = true) :
    a.digest = b.digest := by
  simp [digest, agrees_iff.mp hAgrees]

end Constant

end Formulas

/-! The notations in which formulas are written: the operation between, before or after
its operands, and the plain form, which is the last one without brackets. -/
namespace Formulas

inductive Notation where
  | plain
  | infixed
  | prefixed
  | postfixed
  deriving DecidableEq, Inhabited

namespace Notation

def all : List Notation := [.plain, .infixed, .prefixed, .postfixed]

def name : Notation → String
  | .plain => "plain"
  | .infixed => "infix"
  | .prefixed => "prefix"
  | .postfixed => "postfix"

/-- The notation of a name. -/
def ofName? (name : String) : Option Notation :=
  all.find? fun form => form.name = name

/-- What is said of a name that no notation has. -/
def unknownMessage (name : String) : String :=
  "Unknown notation: " ++ name

/-- An operation may wait for operands that follow it. -/
def allowsWaiting : Notation → Bool
  | .plain | .infixed => true
  | .prefixed | .postfixed => false

theorem ofName?_name (form : Notation) : ofName? form.name = some form := by
  cases form <;> decide

end Notation

end Formulas

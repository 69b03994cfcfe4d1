/-! The three coordinates of a point, the only variables of formulas. -/
namespace Formulas

inductive Coordinate where
  | x
  | y
  | z
  deriving DecidableEq, Inhabited

namespace Coordinate

/-- All coordinates, in the order of their columns. -/
def all : List Coordinate := [.x, .y, .z]

def name : Coordinate → String
  | .x => "x"
  | .y => "y"
  | .z => "z"

/-- The column of a point that holds the coordinate. -/
def index : Coordinate → Nat
  | .x => 0
  | .y => 1
  | .z => 2

/-- The coordinate of a name. -/
def ofName? (name : String) : Option Coordinate :=
  all.find? fun c => c.name = name

theorem mem_all (c : Coordinate) : c ∈ all := by
  cases c <;> decide

theorem ofName?_name (c : Coordinate) : ofName? c.name = some c := by
  cases c <;> decide

end Coordinate

end Formulas

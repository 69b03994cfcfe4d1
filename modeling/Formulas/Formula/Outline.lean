import Formulas.Formula.Basic
import Formulas.Numeral
import Formulas.Text.Quoted
/-! Outlines of formulas, in which constants are literals and operations and coordinates
are names that may not exist. Operands are built before the operation itself, from left
to right, and the first fault wins. -/
namespace Formulas

namespace Outline

/-- What stands where the kind of an operation should be. -/
inductive Kind where
  | named (name : String)
  | shown (text : String)

/-- Why an outline is no formula. -/
inductive Fault where
  | unknownCoordinate (name : String)
  | unknownKind (kind : Kind)
  | badLiteral (literal : String)

/-- The wording of a fault; a bad literal has none. -/
def Fault.message? : Fault → Option String
  | .unknownCoordinate name =>
    some ("Unknown variable " ++ Text.quoted name ++ ", expected one of (" ++
      ", ".intercalate (Coordinate.all.map fun which => Text.quoted which.name) ++ ")")
  | .unknownKind (.named name) =>
    some ("Operation kind must be an OpType, got " ++ Text.quoted name)
  | .unknownKind (.shown text) => some ("Operation kind must be an OpType, got " ++ text)
  | .badLiteral _ => none

end Outline

/-- A real that is no number is told apart from others by its label. -/
inductive Outline where
  | integer (literal : String)
  | real (label : Nat) (literal : String)
  | coordinate (name : String)
  | operation (kind : Outline.Kind) (operands : List Outline)

namespace Outline

instance : Inhabited Outline := ⟨.operation (.named "") []⟩

/-- The constant of an integer literal. -/
def buildInteger (literal : String) : Except Fault Formula :=
  match Numeral.read literal with
  | .number (.integer n) => .ok (.constant (.integer n))
  | _ => .error (.badLiteral literal)

/-- The constant of a real literal. -/
def buildReal (label : Nat) (literal : String) : Except Fault Formula :=
  match Numeral.readReal label literal with
  | some x => .ok (.constant (.real x))
  | none => .error (.badLiteral literal)

/-- The coordinate of a name. -/
def buildCoordinate (name : String) : Except Fault Formula :=
  match Coordinate.ofName? name with
  | some which => .ok (.coordinate which)
  | none => .error (.unknownCoordinate name)

/-- The operation of a kind. -/
def findKind (kind : Kind) : Except Fault Operation :=
  match kind with
  | .shown _ => .error (.unknownKind kind)
  | .named name =>
    match Operation.ofLabel? name with
    | some op => .ok op
    | none => .error (.unknownKind kind)

mutual

/-- The formula that an outline describes. -/
def build : Outline → Except Fault Formula
  | .integer literal => buildInteger literal
  | .real label literal => buildReal label literal
  | .coordinate name => buildCoordinate name
  | .operation kind operands => do
    let operands ← buildAll operands
    let op ← findKind kind
    .ok (.operation op operands)

/-- The formulas that outlines describe. -/
def buildAll : List Outline → Except Fault (List Formula)
  | [] => .ok []
  | outline :: rest => do
    let f ← build outline
    let rest ← buildAll rest
    .ok (f :: rest)

end

end Outline

end Formulas

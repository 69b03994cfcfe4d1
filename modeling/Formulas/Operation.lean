/-! The ten operations of formulas, with their symbols and the numbers of operands
that they take. -/
namespace Formulas

/-- Four binary operators, two named binary operations, the negation, and three means. -/
inductive Operation where
  | add
  | sub
  | mul
  | div
  | hypot
  | hmean
  | negate
  | arithMean
  | geomMean
  | harmMean
  deriving DecidableEq, Inhabited

/-- An operation takes an exact number of operands, or any positive number of them. -/
inductive Arity where
  | exactly (count : Nat)
  | variadic
  deriving DecidableEq

namespace Arity

/-- The least number of operands. -/
def minimum : Arity → Nat
  | .exactly count => count
  | .variadic => 1

/-- The arity allows this number of operands. -/
def admits : Arity → Nat → Bool
  | .exactly count, given => given = count
  | .variadic, given => 1 ≤ given

/-- How many of the available operands an operation takes once no more can follow,
or nothing if they are too few. -/
def take? : Arity → Nat → Option Nat
  | .exactly count, available => if count ≤ available then some count else none
  | .variadic, available => if 1 ≤ available then some available else none

end Arity

namespace Operation

/-- All operations, in the order of their numbers. -/
def all : List Operation :=
  [.add, .sub, .mul, .div, .hypot, .hmean, .negate, .arithMean, .geomMean, .harmMean]

/-- The position among all operations. -/
def ordinal : Operation → Nat
  | .add => 0
  | .sub => 1
  | .mul => 2
  | .div => 3
  | .hypot => 4
  | .hmean => 5
  | .negate => 6
  | .arithMean => 7
  | .geomMean => 8
  | .harmMean => 9

/-- The token that stands for the operation. -/
def symbol : Operation → String
  | .add => "+"
  | .sub => "-"
  | .mul => "*"
  | .div => "/"
  | .hypot => "hypot"
  | .hmean => "hmean"
  | .negate => "negate"
  | .arithMean => "arithMean"
  | .geomMean => "geomMean"
  | .harmMean => "harmMean"

/-- The name of the kind of operation. -/
def label : Operation → String
  | .add => "ADD"
  | .sub => "SUB"
  | .mul => "MUL"
  | .div => "DIV"
  | .hypot => "HYPOT"
  | .hmean => "HMEAN"
  | .negate => "NEGATE"
  | .arithMean => "ARITH_MEAN"
  | .geomMean => "GEOM_MEAN"
  | .harmMean => "HARM_MEAN"

def arity : Operation → Arity
  | .add | .sub | .mul | .div | .hypot | .hmean => .exactly 2
  | .negate => .exactly 1
  | .arithMean | .geomMean | .harmMean => .variadic

def isVariadic (op : Operation) : Bool :=
  op.arity = .variadic

/-- The least number of operands. -/
def minimum (op : Operation) : Nat :=
  op.arity.minimum

/-- The operation allows this number of operands. -/
def admits (op : Operation) (given : Nat) : Bool :=
  op.arity.admits given

/-- The four operators, which may stand between two operands. -/
def isOperator : Operation → Bool
  | .add | .sub | .mul | .div => true
  | _ => false

/-- The operation of a symbol. -/
def ofSymbol? (token : String) : Option Operation :=
  all.find? fun op => op.symbol = token

/-- The operation of a label. -/
def ofLabel? (name : String) : Option Operation :=
  all.find? fun op => op.label = name

theorem mem_all (op : Operation) : op ∈ all := by
  cases op <;> decide

theorem ofSymbol?_symbol (op : Operation) : ofSymbol? op.symbol = some op := by
  cases op <;> decide

theorem ofLabel?_label (op : Operation) : ofLabel? op.label = some op := by
  cases op <;> decide

theorem minimum_pos (op : Operation) : 1 ≤ op.minimum := by
  cases op <;> decide

end Operation

end Formulas

import Formulas.Formula.Basic
import Formulas.Notation
import Formulas.Numeral
import Formulas.Text.Quoted
/-! The texts of formulas in the four notations. Every operation is put between
brackets, except in the plain form. Operands and symbols are separated by single
spaces, which also appear where an operation has no operands. -/
namespace Formulas

/-- The constant can be written: what has no fraction must not have too many digits. -/
def Constant.hasText (c : Constant) : Bool :=
  match c.normal with
  | .integer n => Numeral.isWritable n.natAbs
  | .real _ => true

namespace Formula

/-- The plain text of an operation: the operands and then the symbol. -/
def plainOperation (op : Operation) (operands : List String) : String :=
  " ".intercalate operands ++ " " ++ op.symbol

/-- The symbol before the operands, in brackets. -/
def prefixedOperation (op : Operation) (operands : List String) : String :=
  "(" ++ op.symbol ++ " " ++ " ".intercalate operands ++ ")"

/-- The symbol after the operands, in brackets. -/
def postfixedOperation (op : Operation) (operands : List String) : String :=
  "(" ++ " ".intercalate operands ++ " " ++ op.symbol ++ ")"

/-- An operator stands between its operands if it has two of them; everything else is
written like a call. -/
def infixedOperation (op : Operation) (operands : List String) : String :=
  match op.isOperator, operands with
  | true, [left, right] => "(" ++ left ++ " " ++ op.symbol ++ " " ++ right ++ ")"
  | _, _ => "(" ++ " ".intercalate (op.symbol :: operands) ++ ")"

/-- The text of an operation in a notation, from the texts of its operands. -/
def operationText : Notation → Operation → List String → String
  | .plain => plainOperation
  | .infixed => infixedOperation
  | .prefixed => prefixedOperation
  | .postfixed => postfixedOperation

/-- The text of a formula in a notation. -/
def render (form : Notation) : Formula → String :=
  fold Constant.text Coordinate.name (operationText form)

/-- All constants can be written. -/
def hasText : Formula → Bool :=
  fold Constant.hasText (fun _ => true) fun _ operands => operands.all id

/-- The text of a formula in a notation, if it can be written. -/
def text? (form : Notation) (f : Formula) : Option String :=
  if f.hasText then some (f.render form) else none

/-- The text that names every node with its kind and shows the kinds of constants. -/
def nodeText : Formula → String :=
  fold (fun value => "ConstantNode(" ++ value.literal ++ ")")
    (fun which => "VariableNode(" ++ Text.quoted which.name ++ ")")
    fun op operands => "OperationNode(" ++ ", ".intercalate (op.label :: operands) ++ ")"

/-- The text that names a whole formula. -/
def wholeText (f : Formula) : String :=
  "Expression(" ++ f.render .prefixed ++ ")"

theorem render_operation (form : Notation) (op : Operation) (operands : List Formula) :
    render form (.operation op operands) =
      operationText form op (operands.map (render form)) :=
  fold_operation ..

end Formula

end Formulas

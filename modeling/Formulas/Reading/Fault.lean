import Formulas.Operation
/-! Why a text cannot be read: the mistakes that strict reading refuses, with their
wordings, and integer literals that are too long. -/
namespace Formulas.Reading

/-- Which operation is missing. -/
inductive Lack where
  | unspecified
  | closingGroup
  | nearBracket
  | itemsLeft (count : Nat)
  deriving DecidableEq

/-- A mistake in the structure of a text. -/
inductive Mistake where
  | unbalanced
  | fewOperands (required : Nat) (op : Operation)
  | fewOperations (lack : Lack)
  | unknownToken (text : String)
  deriving DecidableEq

/-- Why reading stops. Only strict reading stops at a mistake. -/
inductive Fault where
  | mistake (what : Mistake)
  | numeralTooLong
  deriving DecidableEq

def Lack.message? : Lack → Option String
  | .unspecified => none
  | .closingGroup => some "operation must close its group"
  | .nearBracket => some "near parenthesis"
  | .itemsLeft count => some (toString count ++ " items left")

namespace Mistake

def message : Mistake → String
  | .unbalanced => "Unbalanced parentheses"
  | .fewOperands required op =>
    "Not enough operands, need " ++ toString required ++ " for '" ++ op.symbol ++ "'"
  | .fewOperations lack =>
    match lack.message? with
    | none => "Not enough operations"
    | some detail => "Not enough operations, " ++ detail
  | .unknownToken text => "Unknown token: " ++ text

/-- The name of the kind of mistake. -/
def kind : Mistake → String
  | .unbalanced => "unbalanced_parentheses"
  | .fewOperands .. => "insufficient_operands"
  | .fewOperations _ => "insufficient_operations"
  | .unknownToken _ => "unknown_token"

end Mistake

end Formulas.Reading

import Formulas.Notation
import Formulas.Reading.Fault
import Formulas.Text.Quoted
/-! What reading reports besides its result: tokens and operations that were passed
over, and how it ended. -/
namespace Formulas.Reading

/-- The notation that is read, and whether mistakes are refused or repaired. -/
structure Settings where
  form : Notation
  strict : Bool
  deriving DecidableEq

inductive Notice where
  | unknownToken (text : String)
  | starved (op : Operation)
  | dropped (op : Operation)
  | refused (form : Notation) (what : Mistake)
  | finished (count : Nat) (settings : Settings)
  deriving DecidableEq

namespace Notice

def message : Notice → String
  | .unknownToken text => "Ignoring unknown token " ++ Text.quoted text
  | .starved op =>
    "Ignoring operation " ++ Text.quoted op.symbol ++ ": need " ++ toString op.minimum ++
      " operands in its group"
  | .dropped op => "Dropping operation " ++ Text.quoted op.symbol ++ " without operands"
  | .refused form what => "Strict " ++ form.name ++ " parse failed: " ++ what.message
  | .finished count settings =>
    "Parsed " ++ toString count ++ " tokens as " ++ settings.form.name ++
      (if settings.strict then " (strict)" else "")

/-- An operation was passed over. -/
def isLoss : Notice → Bool
  | .starved _ | .dropped _ => true
  | _ => false

end Notice

end Formulas.Reading

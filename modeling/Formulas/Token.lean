import Formulas.Coordinate
import Formulas.Numeral
import Formulas.Operation
import Formulas.Text.Blank
/-! Tokens. A text is split into single brackets and maximal runs of characters that are
neither brackets nor blank; what a piece stands for depends on the piece alone. -/
namespace Formulas

/-- What a piece of text stands for. A piece that is an integer literal beyond the digit
limit is `oversized`; one that is nothing else is `unknown`. -/
inductive Token where
  | opener
  | closer
  | operation (op : Operation)
  | coordinate (which : Coordinate)
  | number (value : Constant)
  | oversized
  | unknown (text : String)
  deriving DecidableEq

namespace Token

def isBracket (c : Char) : Bool :=
  c = '(' ∨ c = ')'

/-- The character belongs to a run. -/
def isRunChar (c : Char) : Bool :=
  ¬ isBracket c ∧ ¬ Text.isBlank c

/-- The characters start with a run. -/
def startsRun : List Char → Bool
  | [] => false
  | c :: _ => isRunChar c

/-- The brackets and runs of a text, in order. -/
def pieces : List Char → List (List Char)
  | [] => []
  | c :: rest =>
    if Text.isBlank c then pieces rest
    else if isBracket c then [c] :: pieces rest
    else
      match startsRun rest, pieces rest with
      | true, run :: more => (c :: run) :: more
      | _, more => [c] :: more

/-- The pieces of a text. -/
def split (text : String) : List String :=
  (pieces text.toList).map String.ofList

/-- What a piece of text that is neither a symbol, a coordinate nor a bracket stands for. -/
def ofLiteral (text : String) : Token :=
  match Numeral.read text with
  | .number value => .number value
  | .tooLong => .oversized
  | .other => .unknown text

/-- What a piece of text stands for. -/
def ofText (text : String) : Token :=
  match Operation.ofSymbol? text with
  | some op => .operation op
  | none =>
    match Coordinate.ofName? text with
    | some which => .coordinate which
    | none =>
      if text = "(" then .opener
      else if text = ")" then .closer
      else ofLiteral text

/-- The tokens of a text. -/
def scan (text : String) : List Token :=
  (split text).map ofText

/-- The other bracket; all other tokens stay. -/
def flip : Token → Token
  | .opener => .closer
  | .closer => .opener
  | token => token

/-- The tokens from back to front, with the two brackets exchanged. -/
def backward (tokens : List Token) : List Token :=
  tokens.reverse.map flip

theorem flip_flip (token : Token) : token.flip.flip = token := by
  cases token <;> rfl

theorem backward_backward (tokens : List Token) : backward (backward tokens) = tokens := by
  simp [backward, flip_flip, Function.comp_def]

end Token

end Formulas

import Formulas.Constant
import Formulas.Text.Digit
/-! Number literals. An integer is an optional sign and digits. A decimal is an optional
sign, digits with an optional point among, before or after them, and an optional
exponent. Digits of all scripts may be mixed freely. -/
namespace Formulas.Numeral

open scoped Natural

/-- The greatest number of digits of an integer, in literals and in whatever is written. -/
def digitLimit : Nat := 4300

/-- A natural number whose digits are within the limit, which can be written out. -/
def isWritable (n : Nat) : Bool :=
  n < 10 ^ digitLimit

/-- What a text is when read as a number literal. An integer literal with more digits
than the limit is recognised but has no value. -/
inductive Reading where
  | number (value : Constant)
  | tooLong
  | other
  deriving DecidableEq

/-- The leading digits of a text, by value, and what follows them. -/
def takeDigits : List Char → List Nat × List Char
  | [] => ([], [])
  | c :: rest =>
    match Text.digitValue? c with
    | some digit =>
      let following := takeDigits rest
      (digit :: following.1, following.2)
    | none => ([], c :: rest)

/-- The number that digits stand for. -/
def ofDigits (digits : List Nat) : Nat :=
  digits.foldl (fun value digit => 10 * value + digit) 0

/-- An optional sign, and what follows it. -/
def takeSign : List Char → Bool × List Char
  | '+' :: rest => (false, rest)
  | '-' :: rest => (true, rest)
  | rest => (false, rest)

/-- An exponent that fills the rest of a text; no text at all is the exponent zero. -/
def readExponent : List Char → Option Int
  | [] => some 0
  | mark :: rest =>
    if mark = 'e' ∨ mark = 'E' then
      let (negative, unsigned) := takeSign rest
      match takeDigits unsigned with
      | ([], _) => none
      | (digits, []) =>
        some (if negative then -(ofDigits digits : Int) else ofDigits digits)
      | _ => none
    else none

/-- A decimal from its digits before and after the point and the rest of the text. -/
def readDecimal (negative : Bool) (whole fraction : List Nat) (rest : List Char) : Reading :=
  if whole.isEmpty ∧ fraction.isEmpty then .other
  else
    match readExponent rest with
    | some exponent =>
      .number (.real (Decimal.toBinary64
        ⟨negative, ofDigits (whole ++ fraction), exponent - fraction.length⟩))
    | none => .other

/-- An integer from its digits. -/
def readInteger (negative : Bool) (digits : List Nat) : Reading :=
  if digitLimit < digits.length then .tooLong
  else .number (.integer (if negative then -(ofDigits digits : Int) else ofDigits digits))

/-- Reads a text as a number literal. -/
def read (text : String) : Reading :=
  let (negative, unsigned) := takeSign text.toList
  match takeDigits unsigned with
  | ([], '.' :: rest) => readDecimal negative [] (takeDigits rest).1 (takeDigits rest).2
  | ([], _) => .other
  | (whole, []) => readInteger negative whole
  | (whole, '.' :: rest) => readDecimal negative whole (takeDigits rest).1 (takeDigits rest).2
  | (whole, rest) => readDecimal negative whole [] rest

/-- Reads a text as a double precision number: a literal of any length, or the name of
an infinity or of no number, to which the label is given. -/
def readReal (label : Nat) (text : String) : Option Binary64 :=
  let (negative, unsigned) := takeSign text.toList
  let name := String.ofList (unsigned.map Char.toLower)
  if name = "inf" ∨ name = "infinity" then some (.infinite negative)
  else if name = "nan" then some (.nan label)
  else
    match takeDigits unsigned with
    | (digits, []) =>
      if digits.isEmpty then none
      else some (Decimal.toBinary64 ⟨negative, ofDigits digits, 0⟩)
    | _ =>
      match read text with
      | .number (.real x) => some x
      | _ => none

end Formulas.Numeral

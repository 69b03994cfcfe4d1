import Formulas.Text.Printable
/-! Quoted texts. The quotes are single ones, or double ones around a text that holds
a single quote and no double one. The quote in use, the backslash and all characters
that cannot be printed are escaped. -/
namespace Formulas.Text

def singleQuote : Char := '\x27'

def doubleQuote : Char := '\x22'

def backslash : Char := '\x5c'

/-- The quote that goes around a text. -/
def quoteFor (text : List Char) : Char :=
  if text.contains singleQuote ∧ ¬ text.contains doubleQuote then doubleQuote else singleQuote

/-- A number in lower-case hexadecimal digits, padded with zeros to the given width. -/
def hexadecimal (width n : Nat) : List Char :=
  let digits := Nat.toDigits 16 n
  List.replicate (width - digits.length) '0' ++ digits

/-- A character as it stands between the given quotes. -/
def escaped (quote c : Char) : List Char :=
  if c = quote ∨ c = backslash then [backslash, c]
  else if c = '\t' then [backslash, 't']
  else if c = '\n' then [backslash, 'n']
  else if c = '\r' then [backslash, 'r']
  else if isPrintable c then [c]
  else if c.toNat < 0x100 then backslash :: 'x' :: hexadecimal 2 c.toNat
  else if c.toNat < 0x10000 then backslash :: 'u' :: hexadecimal 4 c.toNat
  else backslash :: 'U' :: hexadecimal 8 c.toNat

/-- A text between quotes. -/
def quoted (text : String) : String :=
  let quote := quoteFor text.toList
  String.ofList (quote :: (text.toList.flatMap (escaped quote)) ++ [quote])

end Formulas.Text

/-! Blank characters, which separate tokens: the control characters for tabs, line
ends and separators, and the spaces of all scripts. Joiners, zero-width spaces and
the byte order mark are not blank. -/
namespace Formulas.Text

/-- The blank code points, as ranges with both ends. -/
def blankRanges : List (Nat × Nat) :=
  [(0x09, 0x0D), (0x1C, 0x20), (0x85, 0x85), (0xA0, 0xA0), (0x1680, 0x1680),
    (0x2000, 0x200A), (0x2028, 0x2029), (0x202F, 0x202F), (0x205F, 0x205F), (0x3000, 0x3000)]

def isBlank (c : Char) : Bool :=
  blankRanges.any fun range => range.1 ≤ c.toNat ∧ c.toNat ≤ range.2

end Formulas.Text

import Formulas.Proofs.Numeral.Limit

/-! Decimal digits by their places. The digits of a script stand in a row of ten from its zero on,
and the value of a digit is its distance from that zero. No two rows overlap, so that a character
is a digit of one value at most, which is the one that is read. -/
namespace Formulas

/-- The character is in the row of ten that some script has for its digits, and the value is its
place in that row. -/
def IsDigit (c : Char) (value : Nat) : Prop :=
  value < 10 ∧ ∃ first ∈ Text.zeroDigits, c.toNat = first + value

instance (c : Char) (value : Nat) : Decidable (IsDigit c value) :=
  inferInstanceAs (Decidable (_ ∧ _))

namespace Text

/-- The rows of digits do not overlap. -/
theorem zeroDigits_apart : zeroDigits.Pairwise fun a b => a + 10 ≤ b := by
  decide

theorem zeroDigits_unique {first other code : Nat} (hFirst : first ∈ zeroDigits)
    (hRow : first ≤ code ∧ code < first + 10) (hOther : other ∈ zeroDigits)
    (hRow' : other ≤ code ∧ code < other + 10) : first = other := by
  obtain ⟨i, hi, rfl⟩ := List.mem_iff_getElem.mp hFirst
  obtain ⟨j, hj, rfl⟩ := List.mem_iff_getElem.mp hOther
  have hApart := List.pairwise_iff_getElem.mp zeroDigits_apart
  rcases Nat.lt_trichotomy i j with hBefore | rfl | hAfter
  · have hGap := hApart i j hi hj hBefore
    omega
  · rfl
  · have hGap := hApart j i hj hi hAfter
    omega

/-- A character is read as a digit exactly if it is one, and with its value. -/
theorem digitValue?_eq_some_iff {c : Char} {value : Nat} :
    digitValue? c = some value ↔ IsDigit c value := by
  rw [digitValue?, Option.map_eq_some_iff]
  constructor
  · rintro ⟨first, hFound, rfl⟩
    have hRow := List.find?_some hFound
    simp only [decide_eq_true_eq] at hRow
    exact ⟨by omega, first, List.mem_of_find?_eq_some hFound, by omega⟩
  · rintro ⟨hSmall, first, hMem, hCode⟩
    have hRow : first ≤ c.toNat ∧ c.toNat < first + 10 := by omega
    obtain ⟨found, hFound⟩ : ∃ found, zeroDigits.find?
        (fun start => start ≤ c.toNat ∧ c.toNat < start + 10) = some found := by
      rw [← Option.isSome_iff_exists, List.find?_isSome]
      exact ⟨first, hMem, decide_eq_true hRow⟩
    have hRow' := List.find?_some hFound
    simp only [decide_eq_true_eq] at hRow'
    obtain rfl := zeroDigits_unique hMem hRow (List.mem_of_find?_eq_some hFound) hRow'
    exact ⟨first, hFound, by omega⟩

theorem isDigit_iff {c : Char} : isDigit c = true ↔ ∃ value, IsDigit c value := by
  simp only [isDigit, Option.isSome_iff_exists, digitValue?_eq_some_iff]

end Text

namespace Numeral

variable {chars : List Char} {digits : List Nat}

/-- Digits have a value each. -/
theorem areDigits_iff : AreDigits chars ↔ ∃ digits, List.Forall₂ IsDigit chars digits := by
  constructor
  · intro hDigits
    induction chars with
    | nil => exact ⟨[], .nil⟩
    | cons c chars ih =>
        obtain ⟨hFirst, hRest⟩ := List.forall_mem_cons.mp hDigits
        obtain ⟨value, hValue⟩ := Text.isDigit_iff.mp hFirst
        obtain ⟨digits, hValues⟩ := ih hRest
        exact ⟨value :: digits, .cons hValue hValues⟩
  · rintro ⟨digits, hValues⟩
    induction hValues with
    | nil => exact List.forall_mem_nil _
    | cons hValue _ ih => exact List.forall_mem_cons.mpr ⟨Text.isDigit_iff.mpr ⟨_, hValue⟩, ih⟩

end Numeral

end Formulas

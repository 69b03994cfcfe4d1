import Formulas.Proofs.Constant.Exact
import Formulas.Proofs.Numeral.Value

/-! The text of a constant as its canonical literal. However two literals are spelled, their
values are written alike exactly if they are equal, and what is written is read as the same
value again, which comes back as an integer whenever it is one. -/
namespace Formulas.Constant

variable {c d : Constant}

/-- A constant comes back as an integer exactly if its exact value is one. -/
theorem normal_eq_integer_iff : (∃ n, c.normal = .integer n) ↔ ∃ n : Int, c.exact = .rational n := by
  rw [← exact_normal c]
  constructor
  · rintro ⟨n, hNormal⟩
    exact ⟨n, by rw [hNormal, exact]⟩
  · rintro ⟨n, hExact⟩
    rcases normal_cases c with ⟨m, hNormal⟩ | ⟨x, hFraction, hNormal⟩
    · exact ⟨m, hNormal⟩
    · rw [hNormal] at hExact
      exact absurd hExact (exact_ne_of_fraction hFraction n)

/-- Readable constants are written alike exactly if they have the same exact value. -/
theorem text_eq_iff_exact (hc : c.isReadable = true) (hd : d.isReadable = true) :
    c.text = d.text ↔ c.exact = d.exact := by
  rw [← agrees_iff_exact]
  constructor
  · intro hText
    have hRead := read_text hc
    rw [hText, read_text hd] at hRead
    exact agrees_iff.mpr (Numeral.Reading.number.inj hRead).symm
  · exact text_eq_of_agrees

/-- Two literals of finite values have equal values exactly if these are written alike. The text of
an integer within the digit limit or of a finite real is a literal of the same value, and it is
read as an integer exactly if that value is one. -/
theorem read_text_canonical :
    (∀ (s t : String) (v w : Constant), Numeral.read s = .number v → Numeral.read t = .number w →
      v.isFinite = true → w.isFinite = true → (v.exact = w.exact ↔ v.text = w.text)) ∧
    ∀ c : Constant, c.isReadable = true → ∃ d, Numeral.read c.text = .number d ∧
      d.exact = c.exact ∧ ((∃ n, d = .integer n) ↔ ∃ n : Int, c.exact = .rational n) := by
  constructor
  · intro s t v w hs ht hv hw
    rw [← Numeral.isReadable_of_read hs] at hv
    rw [← Numeral.isReadable_of_read ht] at hw
    exact (text_eq_iff_exact hv hw).symm
  · intro c hReadable
    exact ⟨c.normal, read_text hReadable, exact_normal c, normal_eq_integer_iff⟩

/-- Three as a decimal with digits of two scripts and as an integer with leading zeros, a large
real that is written as an integer, and the integer just above such a real. -/
theorem read_text_canonical_spellings :
    let three : Constant := .real (.finite false (3 * 2 ^ 51) (-51) (by decide))
    let power : Constant := .real (.finite false (2 ^ 52) 1 (by decide))
    let above : Constant := .integer (2 ^ 53 + 1)
    let half : Constant := .real (.finite true (2 ^ 52) (-53) (by decide))
    ((Numeral.read "0.0３e2" = .number three ∧ Numeral.read "+003" = .number (.integer 3) ∧
        three.isFinite = true ∧ isFinite (.integer 3) = true) ∧ three.text = text (.integer 3)) ∧
      ((Numeral.read "9007199254740993.0" = .number power ∧
        Numeral.read "9007199254740993" = .number above ∧ power.isFinite = true ∧
        above.isFinite = true) ∧ power.text ≠ above.text) ∧
      (half.isReadable = true ∧ ∃ d, Numeral.read half.text = .number d ∧ d.exact = half.exact ∧
        ¬ ∃ n, d = .integer n) := by
  intro three power above half
  obtain ⟨hSpellings, hBack⟩ := read_text_canonical
  have hThree : Numeral.read "0.0３e2" = .number three := by decide +kernel
  have hPlain : Numeral.read "+003" = .number (.integer 3) := by decide +kernel
  have hPower : Numeral.read "9007199254740993.0" = .number power := by decide +kernel
  have hAbove : Numeral.read "9007199254740993" = .number above := by decide +kernel
  have hSame : three.exact = exact (.integer 3) := agrees_iff_exact.mp (by decide +kernel)
  have hOther : power.exact ≠ above.exact := mt agrees_iff_exact.mpr (by decide +kernel)
  have hFraction : ¬ ∃ n : Int, half.exact = .rational n := by
    rintro ⟨n, hExact⟩
    exact exact_ne_of_fraction (by decide +kernel) n hExact
  obtain ⟨d, hRead, hExact, hWhole⟩ := hBack half rfl
  exact ⟨⟨⟨hThree, hPlain, rfl, rfl⟩, (hSpellings _ _ _ _ hThree hPlain rfl rfl).mp hSame⟩,
    ⟨⟨hPower, hAbove, rfl, rfl⟩, mt (hSpellings _ _ _ _ hPower hAbove rfl rfl).mpr hOther⟩,
    rfl, d, hRead, hExact, mt hWhole.mp hFraction⟩

end Formulas.Constant

import Formulas.Proofs.Constant.Text

/-! The values of literals that are read. An integer that is read has no more digits than the
limit, so whatever is read can be written again, unless it is too large to be finite. -/
namespace Formulas

namespace Numeral

theorem lt_of_mem_takeDigits {chars : List Char} :
    ∀ digit ∈ (takeDigits chars).1, digit < 10 := by
  induction chars with
  | nil => simp [takeDigits]
  | cons c rest ih =>
      rw [takeDigits]
      cases hDigit : Text.digitValue? c with
      | none => simp
      | some digit =>
          have hSmall : digit < 10 := by
            obtain ⟨start, hFound, rfl⟩ := Option.map_eq_some_iff.mp hDigit
            have hRange := List.find?_some hFound
            simp only [decide_eq_true_eq] at hRange
            omega
          simpa using ⟨hSmall, ih⟩

/-- Digits stand for a number below the power of ten that comes after them. -/
theorem ofDigits_lt {digits : List Nat} (hDigits : ∀ digit ∈ digits, digit < 10) :
    ofDigits digits < 10 ^ digits.length := by
  induction digits using List.reverseRecOn with
  | nil => decide
  | append_singleton digits digit ih =>
      have hFront := ih fun d hd => hDigits d (List.mem_append_left _ hd)
      have hLast := hDigits digit (by simp)
      have hValue : ofDigits (digits ++ [digit]) = 10 * ofDigits digits + digit := by
        simp [ofDigits]
      rw [hValue, List.length_append, List.length_singleton, Nat.pow_succ]
      omega

theorem readDecimal_ne_integer {negative : Bool} {whole fraction : List Nat} {rest : List Char}
    {n : Int} : readDecimal negative whole fraction rest ≠ .number (.integer n) := by
  unfold readDecimal
  split
  · simp
  · split <;> simp

theorem isWritable_of_readInteger {negative : Bool} {digits : List Nat} {n : Int}
    (hDigits : ∀ digit ∈ digits, digit < 10)
    (hRead : readInteger negative digits = .number (.integer n)) :
    isWritable n.natAbs = true := by
  unfold readInteger at hRead
  split at hRead
  · simp at hRead
  · next hLimit =>
      have hAbs : n.natAbs = ofDigits digits := by
        rw [← Constant.integer.inj (Reading.number.inj hRead)]
        split <;> simp
      rw [hAbs, isWritable_iff]
      exact (ofDigits_lt hDigits).trans_le
        (Nat.pow_le_pow_right (by decide) (Nat.not_lt.mp hLimit))

/-- An integer that is read has no more digits than the limit. -/
theorem isWritable_of_read {text : String} {n : Int} (hRead : read text = .number (.integer n)) :
    isWritable n.natAbs = true := by
  simp only [read] at hRead
  have hDigits : ∀ digit ∈ (takeDigits (takeSign text.toList).2).1, digit < 10 :=
    lt_of_mem_takeDigits
  generalize takeDigits (takeSign text.toList).2 = taken at hRead hDigits
  obtain ⟨whole, tail⟩ := taken
  cases tail with
  | nil =>
      cases whole with
      | nil => simp at hRead
      | cons digit whole => exact isWritable_of_readInteger hDigits hRead
  | cons c rest =>
      by_cases hPoint : c = '.'
      · subst hPoint
        cases whole with
        | nil => exact (readDecimal_ne_integer hRead).elim
        | cons digit whole => exact (readDecimal_ne_integer hRead).elim
      · cases whole with
        | nil => simp [hPoint] at hRead
        | cons digit whole =>
            exact (readDecimal_ne_integer (by simpa [hPoint] using hRead)).elim

/-- A number that is read can be written so that it is read again exactly if it is finite. -/
theorem isReadable_of_read {text : String} {value : Constant}
    (hRead : read text = .number value) : value.isReadable = value.isFinite := by
  cases value with
  | integer n => exact isWritable_of_read hRead
  | real x => rfl

end Numeral

namespace Token

/-- Only literals stand for numbers. -/
theorem read_of_ofText {piece : String} {value : Constant}
    (hPiece : ofText piece = .number value) : Numeral.read piece = .number value := by
  rcases ofText_cases piece with ⟨op, rfl⟩ | ⟨which, rfl⟩ | rfl | rfl | hLiteral
  · simp at hPiece
  · simp at hPiece
  · simp at hPiece
  · simp at hPiece
  · rw [hLiteral, ofLiteral] at hPiece
    cases hRead : Numeral.read piece with
    | number other => simpa [hRead] using hPiece
    | tooLong => simp [hRead] at hPiece
    | other => simp [hRead] at hPiece

end Token

end Formulas

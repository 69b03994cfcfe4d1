import Formulas.Proofs.Binary64.Rounding

/-! Where rounding overflows. A ratio becomes an infinity from half a unit above the largest
finite number on, since the tie there goes to the even mantissa of the number that is missing. -/
namespace Formulas

/-- A ratio is rounded below an even number when it lies below the middle between that number and
the one before it. -/
theorem roundHalfEven_lt_iff {num den half : Nat} (hDen : 0 < den) (hHalf : 0 < half) :
    roundHalfEven num den < 2 * half ↔ 2 * num < (4 * half - 1) * den := by
  have hNum : num = den * (num / den) + num % den := (Nat.div_add_mod num den).symm
  have hRemainder : num % den < den := Nat.mod_lt num hDen
  unfold roundHalfEven
  dsimp only
  generalize num / den = quotient at hNum
  generalize num % den = remainder at hNum hRemainder
  subst hNum
  rcases Nat.lt_trichotomy (quotient + 1) (2 * half) with hBelow | hAt | hAbove
  · obtain ⟨more, hMore⟩ := Nat.exists_eq_add_of_lt hBelow
    have hFactor : 4 * half - 1 = 2 * quotient + 2 * more + 3 := by omega
    have hLess : 2 * (den * quotient + remainder) < (4 * half - 1) * den := by
      rw [hFactor]
      nlinarith [Nat.zero_le (more * den)]
    refine iff_of_true ?_ hLess
    split_ifs <;> omega
  · have hFactor : 4 * half - 1 = 2 * quotient + 1 := by omega
    have hOdd : quotient % 2 = 1 := by omega
    have hMiddle : 2 * (den * quotient + remainder) < (4 * half - 1) * den ↔
        2 * remainder < den := by
      rw [hFactor]
      constructor <;> intro hLess <;> nlinarith
    rw [hMiddle]
    split_ifs with hDown <;> omega
  · have hMore : (4 * half - 1) * den ≤ 2 * (den * quotient + remainder) := by
      have hFactor : 4 * half - 1 ≤ 2 * quotient := by omega
      nlinarith [Nat.mul_le_mul_right den hFactor]
    refine iff_of_false ?_ (Nat.not_lt.mpr hMore)
    split_ifs <;> omega

namespace Binary64

/-- At the greatest exponent only the carry is too large. -/
theorem isFinite_assemble_greatest (negative : Bool) {mantissa : Nat} (hLeast : 2 ^ 52 ≤ mantissa) :
    (assemble negative mantissa 971).isFinite = true ↔ mantissa < 2 ^ 53 := by
  unfold assemble
  split_ifs with hCanonical hCarry
  · exact iff_of_true rfl hCanonical.1
  · exact absurd hCarry.2.2.1 (by norm_num)
  · refine iff_of_false Bool.false_ne_true fun hDigits => hCanonical ⟨hDigits, ?_⟩
    exact ⟨by norm_num, le_rfl, fun hSmall => absurd hSmall (Nat.not_lt.mpr hLeast)⟩

/-- Beyond the greatest exponent nothing is finite. -/
theorem isFinite_assemble_beyond (negative : Bool) (mantissa : Nat) {exponent : Int}
    (hBeyond : 971 < exponent) : (assemble negative mantissa exponent).isFinite = false := by
  unfold assemble
  split_ifs with hCanonical hCarry
  · exact absurd hCanonical.2.2.1 (by omega)
  · exact absurd hCarry.2.2.1 (by omega)
  · rfl

/-- The middle between the largest finite number and the next power of two. -/
def overflowBound : Nat :=
  2 ^ 1024 - 2 ^ 970

theorem cast_overflowBound : (overflowBound : ℚ) = (2 ^ 54 - 1) * 2 ^ (970 : Int) := by
  have hSplit : overflowBound = (2 ^ 54 - 1) * 2 ^ 970 := by
    rw [overflowBound, show 1024 = 54 + 970 from rfl, pow_add, Nat.sub_mul, one_mul]
  rw [hSplit, Nat.cast_mul, Nat.cast_pow, Nat.cast_ofNat, zpow_ofNat]
  exact congrArg (· * (2 : ℚ) ^ 970) (by norm_num)

theorem zpow_lt_overflowBound : (2 : ℚ) ^ (1023 : Int) < overflowBound := by
  rw [cast_overflowBound, show (1023 : Int) = 53 + 970 from rfl, zpow_add₀ two_ne_zero]
  exact mul_lt_mul_of_pos_right (by norm_num) (by positivity)

theorem overflowBound_lt_zpow : (overflowBound : ℚ) < 2 ^ (1024 : Int) := by
  rw [cast_overflowBound, show (1024 : Int) = 54 + 970 from rfl, zpow_add₀ two_ne_zero]
  exact mul_lt_mul_of_pos_right (by norm_num) (by positivity)

/-- At the greatest exponent the middle has the mantissa `2 ^ 53 - 1 / 2`. -/
theorem lt_overflowBound_iff {ratio : ℚ} :
    ratio < overflowBound ↔ 2 * (ratio / 2 ^ (971 : Int)) < 2 ^ 54 - 1 := by
  have hPower : (2 : ℚ) ^ (971 : Int) = 2 * 2 ^ (970 : Int) := by
    rw [show (971 : Int) = 1 + 970 from rfl, zpow_add₀ two_ne_zero, zpow_one]
  rw [cast_overflowBound, hPower, ← div_lt_iff₀ (by positivity), ← mul_div_assoc,
    mul_div_mul_left _ _ two_ne_zero]

/-- At the greatest exponent a ratio from the middle on is rounded up to the next power of two. -/
theorem isFinite_round_greatest (negative : Bool) {num den : Nat} (hNum : num ≠ 0) (hDen : den ≠ 0)
    (hAt : roundingExponent num den = 971) :
    (round negative num den).isFinite = true ↔ (num : ℚ) / den < overflowBound := by
  have hDigits := (scaledRatio_digits hNum hDen).2 (by omega)
  have hSnd : 0 < (scaledRatio 2 num den 971).2 :=
    scaledRatio_snd_pos (by norm_num) (Nat.pos_of_ne_zero hDen) _
  have hValue : ((scaledRatio 2 num den 971).1 : ℚ) / (scaledRatio 2 num den 971).2 =
      num / den / (2 : Nat) ^ (971 : Int) := scaledRatio_value two_ne_zero 971
  simp only [round, if_neg hNum]
  rw [hAt] at hDigits ⊢
  generalize scaledRatio 2 num den 971 = scaled at hDigits hSnd hValue ⊢
  have hLeast := hDigits.trans (roundHalfEven_bounds scaled.1 scaled.2).1
  have hSnd' : (0 : ℚ) < scaled.2 := Nat.cast_pos.mpr hSnd
  have hMiddle : ((4 * 2 ^ 52 - 1 : Nat) : ℚ) = 2 ^ 54 - 1 := by norm_num
  rw [isFinite_assemble_greatest negative hLeast, show 2 ^ 53 = 2 * 2 ^ 52 by norm_num,
    roundHalfEven_lt_iff hSnd (by norm_num), lt_overflowBound_iff]
  rw [Nat.cast_ofNat] at hValue
  rw [← hValue, ← mul_div_assoc, div_lt_iff₀ hSnd', ← Nat.cast_lt (α := ℚ), Nat.cast_mul,
    Nat.cast_mul, hMiddle, Nat.cast_ofNat]

/-- A ratio is rounded to a finite number when it lies below the middle between the largest one
and the next power of two. -/
theorem isFinite_round_iff (negative : Bool) {num den : Nat} (hDen : den ≠ 0) :
    (round negative num den).isFinite = true ↔ (num : ℚ) / den < overflowBound := by
  by_cases hNum : num = 0
  · refine iff_of_true (by simp [round, hNum, zero, isFinite]) ?_
    rw [hNum, Nat.cast_zero, zero_div]
    exact lt_trans (by positivity) zpow_lt_overflowBound
  obtain ⟨hLow, hHigh⟩ := fittingExponent_bounds hNum hDen
  have hLarge : fittingExponent num den ≤ roundingExponent num den := le_max_left ..
  rcases lt_trichotomy (roundingExponent num den) 971 with hBelow | hAt | hBeyond
  · refine iff_of_true (isFinite_round_of_exponent negative hNum hDen hBelow) ?_
    have hPower : (2 : ℚ) ^ (fittingExponent num den + 53) ≤ 2 ^ (1023 : Int) :=
      zpow_le_zpow_right₀ (by norm_num) (by omega)
    exact (hHigh.trans_le hPower).trans zpow_lt_overflowBound
  · exact isFinite_round_greatest negative hNum hDen hAt
  · have hSame : roundingExponent num den = fittingExponent num den := by
      unfold roundingExponent at hBeyond ⊢
      omega
    have hPower : (2 : ℚ) ^ (1024 : Int) ≤ 2 ^ (fittingExponent num den + 52) :=
      zpow_le_zpow_right₀ (by norm_num) (by omega)
    simp only [round, if_neg hNum]
    rw [isFinite_assemble_beyond _ _ hBeyond]
    exact iff_of_false Bool.false_ne_true
      (not_lt.mpr (overflowBound_lt_zpow.le.trans (hPower.trans hLow)))

/-- An integer is too large for double precision from the middle between the largest finite number
and the next power of two on. -/
theorem isFinite_ofInt_iff (n : Int) : (ofInt n).isFinite = true ↔ n.natAbs < overflowBound := by
  rw [ofInt, isFinite_round_iff _ one_ne_zero, Nat.cast_one, div_one, Nat.cast_lt]

end Binary64

end Formulas

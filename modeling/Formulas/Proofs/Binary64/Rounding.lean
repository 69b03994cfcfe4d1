import Formulas.Binary64.Rounding
import Mathlib.Algebra.Order.Field.Power
import Mathlib.Data.Rat.Cast.Order
import Mathlib.Tactic.FieldSimp
import Mathlib.Tactic.Linarith
import Mathlib.Tactic.NormNum
import Mathlib.Tactic.Positivity
import Mathlib.Tactic.Ring

/-! Rounding in exact rational arithmetic: the binary digits of a ratio are counted
correctly, a ratio that a datum represents is rounded to that datum, and an integer is
never rounded to a value with a fraction. -/
namespace Formulas

/-- The value of a scaled ratio. -/
theorem scaledRatio_value {base num den : Nat} (hBase : base ≠ 0) (power : Int) :
    ((scaledRatio base num den power).1 : ℚ) / (scaledRatio base num den power).2 =
      num / den / (base : ℚ) ^ power := by
  have hBase' : (base : ℚ) ≠ 0 := by exact_mod_cast hBase
  by_cases hSign : 0 ≤ power
  · obtain ⟨n, rfl⟩ := Int.eq_ofNat_of_zero_le hSign
    simp [scaledRatio, div_div]
  · obtain ⟨n, rfl⟩ : ∃ n : Nat, power = -n := ⟨(-power).toNat, by omega⟩
    simp only [scaledRatio, if_neg hSign, neg_neg, Int.toNat_natCast, zpow_neg, zpow_natCast]
    push_cast
    field_simp

theorem scaledRatio_snd_pos {base num den : Nat} (hBase : base ≠ 0) (hDen : 0 < den)
    (power : Int) : 0 < (scaledRatio base num den power).2 := by
  by_cases hSign : 0 ≤ power
  · simp only [scaledRatio, if_pos hSign]
    exact Nat.mul_pos hDen (Nat.pow_pos (Nat.pos_of_ne_zero hBase))
  · simpa only [scaledRatio, if_neg hSign] using hDen

/-- A whole ratio is its own rounding. -/
theorem roundHalfEven_mul {den : Nat} (hDen : 0 < den) (whole : Nat) :
    roundHalfEven (whole * den) den = whole := by
  simp [roundHalfEven, Nat.mul_div_cancel _ hDen, hDen]

theorem roundHalfEven_of_value {num den whole : Nat} (hDen : 0 < den)
    (hValue : (num : ℚ) / den = whole) : roundHalfEven num den = whole := by
  have hNum : num = whole * den := by
    have hDen' : (den : ℚ) ≠ 0 := by exact_mod_cast hDen.ne'
    exact_mod_cast (div_eq_iff hDen').mp hValue
  rw [hNum, roundHalfEven_mul hDen]

namespace Binary64

/-- A natural number lies between the powers of two that its logarithm names. -/
theorem log2_bounds {n : Nat} (hn : n ≠ 0) :
    (2 : ℚ) ^ (n.log2 : Int) ≤ n ∧ (n : ℚ) < (2 : ℚ) ^ ((n.log2 : Int) + 1) := by
  constructor
  · exact_mod_cast Nat.log2_self_le hn
  · exact_mod_cast (Nat.lt_log2_self : n < 2 ^ (n.log2 + 1))

/-- The logarithms of its parts give a ratio up to a factor of two. -/
theorem ratio_bounds {num den : Nat} (hNum : num ≠ 0) (hDen : den ≠ 0) :
    (2 : ℚ) ^ ((num.log2 : Int) - den.log2 - 1) < num / den ∧
      (num : ℚ) / den < (2 : ℚ) ^ ((num.log2 : Int) - den.log2 + 1) := by
  obtain ⟨hNumLow, hNumHigh⟩ := log2_bounds hNum
  obtain ⟨hDenLow, hDenHigh⟩ := log2_bounds hDen
  have hDenPos : (0 : ℚ) < den := by exact_mod_cast Nat.pos_of_ne_zero hDen
  constructor
  · rw [lt_div_iff₀ hDenPos]
    calc (2 : ℚ) ^ ((num.log2 : Int) - den.log2 - 1) * den
        < 2 ^ ((num.log2 : Int) - den.log2 - 1) * 2 ^ ((den.log2 : Int) + 1) := by gcongr
      _ = 2 ^ (num.log2 : Int) := by rw [← zpow_add₀ (by norm_num)]; congr 1; ring
      _ ≤ num := hNumLow
  · rw [div_lt_iff₀ hDenPos]
    calc (num : ℚ) < 2 ^ ((num.log2 : Int) + 1) := hNumHigh
      _ = 2 ^ ((num.log2 : Int) - den.log2 + 1) * 2 ^ (den.log2 : Int) := by
        rw [← zpow_add₀ (by norm_num)]; congr 1; ring
      _ ≤ 2 ^ ((num.log2 : Int) - den.log2 + 1) * den := by gcongr

/-- At the fitting exponent a ratio has exactly 53 binary digits before the point. -/
theorem fittingExponent_bounds {num den : Nat} (hNum : num ≠ 0) (hDen : den ≠ 0) :
    (2 : ℚ) ^ (fittingExponent num den + 52) ≤ num / den ∧
      (num : ℚ) / den < (2 : ℚ) ^ (fittingExponent num den + 53) := by
  obtain ⟨hLow, hHigh⟩ := ratio_bounds hNum hDen
  set guess : Int := (num.log2 : Int) - den.log2 - 53 with hGuess
  have hFits : (scaledRatio 2 num den guess).1 / (scaledRatio 2 num den guess).2 < 2 ^ 53 ↔
      (num : ℚ) / den < 2 ^ (guess + 53) := by
    have hSnd : 0 < (scaledRatio 2 num den guess).2 :=
      scaledRatio_snd_pos (by norm_num) (Nat.pos_of_ne_zero hDen) guess
    have hSnd' : (0 : ℚ) < (scaledRatio 2 num den guess).2 := by exact_mod_cast hSnd
    rw [Nat.div_lt_iff_lt_mul hSnd, zpow_add₀ (by norm_num),
      ← mul_comm ((2 : ℚ) ^ (53 : Int)), ← div_lt_iff₀ (by positivity),
      show (2 : ℚ) = ((2 : Nat) : ℚ) by norm_num, ← scaledRatio_value (by norm_num) guess,
      div_lt_iff₀ hSnd']
    exact_mod_cast Iff.rfl
  by_cases hSmall : (num : ℚ) / den < 2 ^ (guess + 53)
  · have hExponent : fittingExponent num den = guess := by
      simp only [fittingExponent, ← hGuess, if_pos (hFits.mpr hSmall)]
    rw [hExponent]
    refine ⟨le_of_lt ?_, hSmall⟩
    rwa [show guess + 52 = (num.log2 : Int) - den.log2 - 1 by omega]
  · have hExponent : fittingExponent num den = guess + 1 := by
      simp only [fittingExponent, ← hGuess, if_neg (mt hFits.mp hSmall)]
    rw [hExponent]
    constructor
    · rw [show guess + 1 + 52 = guess + 53 by ring]
      exact not_lt.mp hSmall
    · rwa [show guess + 1 + 53 = (num.log2 : Int) - den.log2 + 1 by omega]

/-- The fitting exponent is the only one with 53 digits before the point. -/
theorem fittingExponent_eq {num den : Nat} (hNum : num ≠ 0) (hDen : den ≠ 0) {exponent : Int}
    (hLow : (2 : ℚ) ^ (exponent + 52) ≤ num / den)
    (hHigh : (num : ℚ) / den < (2 : ℚ) ^ (exponent + 53)) :
    fittingExponent num den = exponent := by
  obtain ⟨hFitLow, hFitHigh⟩ := fittingExponent_bounds hNum hDen
  have hUp := (zpow_lt_zpow_iff_right₀ (by norm_num)).mp (hFitLow.trans_lt hHigh)
  have hDown := (zpow_lt_zpow_iff_right₀ (by norm_num)).mp (hLow.trans_lt hFitHigh)
  omega

/-- A ratio that a nonzero datum represents is rounded at the exponent of the datum. -/
theorem roundingExponent_of_value {num den mantissa : Nat} {exponent : Int}
    (hCanonical : Canonical mantissa exponent) (hMantissa : mantissa ≠ 0) (hDen : den ≠ 0)
    (hValue : (num : ℚ) / den = mantissa * 2 ^ exponent) :
    roundingExponent num den = exponent := by
  obtain ⟨hDigits, hLeast, -, hNormal⟩ := hCanonical
  have hPower : (0 : ℚ) < 2 ^ exponent := by positivity
  have hNum : num ≠ 0 := by
    rintro rfl
    have hZero : (mantissa : ℚ) * 2 ^ exponent = 0 := by simpa using hValue.symm
    exact hMantissa (by exact_mod_cast (mul_eq_zero.mp hZero).resolve_right hPower.ne')
  have hHigh : (num : ℚ) / den < 2 ^ (exponent + 53) := by
    rw [hValue, add_comm, zpow_add₀ (by norm_num)]
    have hDigits' : (mantissa : ℚ) < 2 ^ (53 : Int) := by exact_mod_cast hDigits
    exact mul_lt_mul_of_pos_right hDigits' hPower
  by_cases hSubnormal : mantissa < 2 ^ 52
  · have hExponent := hNormal hSubnormal
    obtain ⟨hFitLow, -⟩ := fittingExponent_bounds hNum hDen
    have hUp := (zpow_lt_zpow_iff_right₀ (by norm_num)).mp (hFitLow.trans_lt hHigh)
    simp only [roundingExponent]
    omega
  · have hLow : (2 : ℚ) ^ (exponent + 52) ≤ num / den := by
      rw [hValue, add_comm, zpow_add₀ (by norm_num)]
      have hDigits' : (2 : ℚ) ^ (52 : Int) ≤ mantissa := by
        exact_mod_cast Nat.not_lt.mp hSubnormal
      exact mul_le_mul_of_nonneg_right hDigits' hPower.le
    rw [roundingExponent, fittingExponent_eq hNum hDen hLow hHigh]
    omega

/-- A ratio that a nonzero datum represents is rounded to that datum. -/
theorem round_of_value (negative : Bool) {num den mantissa : Nat} {exponent : Int}
    (hCanonical : Canonical mantissa exponent) (hMantissa : mantissa ≠ 0) (hDen : den ≠ 0)
    (hValue : (num : ℚ) / den = mantissa * 2 ^ exponent) :
    round negative num den = .finite negative mantissa exponent hCanonical := by
  have hNum : num ≠ 0 := by
    rintro rfl
    simp [hMantissa, zpow_ne_zero] at hValue
  have hRounded : roundHalfEven (scaledRatio 2 num den exponent).1
      (scaledRatio 2 num den exponent).2 = mantissa := by
    apply roundHalfEven_of_value (scaledRatio_snd_pos (by norm_num) (Nat.pos_of_ne_zero hDen) _)
    rw [scaledRatio_value (by norm_num), hValue]
    exact mul_div_cancel_right₀ _ (by positivity)
  simp only [round, if_neg hNum, roundingExponent_of_value hCanonical hMantissa hDen hValue,
    hRounded, assemble, dif_pos hCanonical]

/-- Rounding moves a ratio to one of the two integers next to it. -/
theorem roundHalfEven_bounds (num den : Nat) :
    num / den ≤ roundHalfEven num den ∧ roundHalfEven num den ≤ num / den + 1 := by
  unfold roundHalfEven
  dsimp only
  split_ifs <;> omega

theorem isFinite_assemble (negative : Bool) {mantissa : Nat} {exponent : Int}
    (hDigits : mantissa ≤ 2 ^ 53) (hLeast : -1074 ≤ exponent) (hMost : exponent < 971)
    (hNormal : mantissa < 2 ^ 52 → exponent = -1074) :
    (assemble negative mantissa exponent).isFinite = true := by
  unfold assemble
  split_ifs with hCanonical hCarry
  · rfl
  · rfl
  · exfalso
    obtain hFits | rfl := hDigits.lt_or_eq
    · exact hCanonical ⟨hFits, hLeast, hMost.le, hNormal⟩
    · exact hCarry ⟨by norm_num, by omega, by omega, fun hSmall => absurd hSmall (by norm_num)⟩

/-- The integer part of a ratio at the exponent that it is rounded at. -/
theorem scaledRatio_digits {num den : Nat} (hNum : num ≠ 0) (hDen : den ≠ 0) :
    let scaled := scaledRatio 2 num den (roundingExponent num den)
    scaled.1 / scaled.2 < 2 ^ 53 ∧
      (roundingExponent num den ≠ -1074 → 2 ^ 52 ≤ scaled.1 / scaled.2) := by
  intro scaled
  obtain ⟨hLow, hHigh⟩ := fittingExponent_bounds hNum hDen
  have hSnd : 0 < scaled.2 := scaledRatio_snd_pos (by norm_num) (Nat.pos_of_ne_zero hDen) _
  have hSnd' : (0 : ℚ) < scaled.2 := by exact_mod_cast hSnd
  have hValue : (scaled.1 : ℚ) / scaled.2 = num / den / 2 ^ roundingExponent num den :=
    scaledRatio_value (by norm_num) _
  have hPower : (0 : ℚ) < 2 ^ roundingExponent num den := by positivity
  have hScale (n : Nat) (exponent : Int) : (2 : ℚ) ^ (exponent + n) = 2 ^ n * 2 ^ exponent := by
    rw [zpow_add₀ (by norm_num), zpow_natCast, mul_comm]
  constructor
  · have hFits : (num : ℚ) / den < 2 ^ 53 * 2 ^ roundingExponent num den := by
      rw [← hScale 53]
      refine hHigh.trans_le (zpow_le_zpow_right₀ (by norm_num) ?_)
      exact Int.add_le_add_right (le_max_left ..) _
    rw [← div_lt_iff₀ hPower, ← hValue, div_lt_iff₀ hSnd'] at hFits
    exact (Nat.div_lt_iff_lt_mul hSnd).mpr (by exact_mod_cast hFits)
  · intro hLarge
    have hExponent : roundingExponent num den = fittingExponent num den := by
      unfold roundingExponent at hLarge ⊢
      omega
    rw [← hExponent, ← Nat.cast_ofNat (R := Int), hScale 52, ← le_div_iff₀ hPower, ← hValue,
      le_div_iff₀ hSnd'] at hLow
    exact (Nat.le_div_iff_mul_le hSnd).mpr (by exact_mod_cast hLow)

/-- A ratio that is rounded below the greatest exponent is never rounded to an infinity. -/
theorem isFinite_round_of_exponent (negative : Bool) {num den : Nat} (hNum : num ≠ 0)
    (hDen : den ≠ 0) (hBelow : roundingExponent num den < 971) :
    (round negative num den).isFinite = true := by
  obtain ⟨hDigits, hNormal⟩ := scaledRatio_digits hNum hDen
  obtain ⟨hDown, hUp⟩ := roundHalfEven_bounds
    (scaledRatio 2 num den (roundingExponent num den)).1
    (scaledRatio 2 num den (roundingExponent num den)).2
  simp only [round, if_neg hNum]
  refine isFinite_assemble negative (hUp.trans hDigits) (le_max_right ..) hBelow ?_
  intro hSmall
  by_contra hLarge
  exact absurd (hDown.trans_lt hSmall) (Nat.not_lt.mpr (hNormal hLarge))

/-- A ratio of at most one is never rounded to an infinity. -/
theorem isFinite_round_of_le (negative : Bool) {num den : Nat} (hDen : den ≠ 0)
    (hLe : num ≤ den) : (round negative num den).isFinite = true := by
  by_cases hNum : num = 0
  · simp [round, hNum, zero, isFinite]
  · have hDenPos : (0 : ℚ) < den := by exact_mod_cast Nat.pos_of_ne_zero hDen
    have hOne : (num : ℚ) / den ≤ 2 ^ (0 : Int) := by
      rw [zpow_zero, div_le_one hDenPos]
      exact_mod_cast hLe
    have hFitting := (zpow_le_zpow_iff_right₀ (by norm_num)).mp
      ((fittingExponent_bounds hNum hDen).1.trans hOne)
    refine isFinite_round_of_exponent negative hNum hDen ?_
    unfold roundingExponent
    omega

/-- A finite datum has a fraction when its exponent is negative and some digits of its
mantissa fall behind the point. -/
theorem toInt?_finite_eq_none_iff {negative : Bool} {mantissa : Nat} {exponent : Int}
    {hCanonical : Canonical mantissa exponent} :
    toInt? (.finite negative mantissa exponent hCanonical) = none ↔
      exponent < 0 ∧ ¬ 2 ^ (-exponent).toNat ∣ mantissa := by
  by_cases hSign : 0 ≤ exponent
  · simp [toInt?, hSign]
  · by_cases hWhole : mantissa % 2 ^ (-exponent).toNat = 0
    · simp [toInt?, hSign, hWhole, Nat.dvd_iff_mod_eq_zero]
    · simp [toInt?, hSign, hWhole, Nat.dvd_iff_mod_eq_zero, not_le.mp hSign]

theorem toInt?_zero_ne_none (negative : Bool) : (zero negative).toInt? ≠ none := by
  rw [zero, ne_eq, toInt?_finite_eq_none_iff]
  intro hFraction
  exact hFraction.2 (dvd_zero _)

/-- Assembling digits that are whole at their exponent gives no fraction. -/
theorem toInt?_assemble_ne_none (negative : Bool) {mantissa : Nat} {exponent : Int}
    (hWhole : exponent < 0 → 2 ^ (-exponent).toNat ∣ mantissa)
    (hFinite : (assemble negative mantissa exponent).isFinite = true) :
    (assemble negative mantissa exponent).toInt? ≠ none := by
  unfold assemble at hFinite ⊢
  split at hFinite
  · next hCanonical =>
      rw [dif_pos hCanonical, ne_eq, toInt?_finite_eq_none_iff]
      intro hFraction
      exact hFraction.2 (hWhole hFraction.1)
  · next hCarry =>
      rw [dif_neg hCarry]
      split at hFinite
      · next hCanonical =>
          rw [dif_pos hCanonical, ne_eq, toInt?_finite_eq_none_iff]
          rintro ⟨hSign, hFraction⟩
          apply hFraction
          have hPower : 2 ^ (-exponent).toNat = 2 * 2 ^ (-(exponent + 1)).toNat := by
            rw [← pow_succ']
            congr 1
            omega
          have hDvd := hWhole (by omega)
          rw [hPower] at hDvd
          exact Nat.dvd_div_of_mul_dvd hDvd
      · simp [isFinite] at hFinite

/-- An integer is never rounded to a value with a fraction. -/
theorem toInt?_round_whole_ne_none (negative : Bool) (n : Nat)
    (hFinite : (round negative n 1).isFinite = true) : (round negative n 1).toInt? ≠ none := by
  by_cases hn : n = 0
  · simpa [round, hn] using toInt?_zero_ne_none negative
  · simp only [round, if_neg hn] at hFinite ⊢
    refine toInt?_assemble_ne_none negative (fun hSign => ?_) hFinite
    have hExact := roundHalfEven_mul Nat.one_pos
      (n * 2 ^ (-roundingExponent n 1).toNat)
    rw [Nat.mul_one] at hExact
    simp only [scaledRatio, if_neg (not_le.mpr hSign), hExact]
    exact Dvd.intro_left n rfl

end Binary64

end Formulas

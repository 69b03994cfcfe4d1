import Formulas.Decimal.Shortest
import Formulas.Proofs.Binary64.Rounding

/-! The shortest decimal of a finite datum reads back as the datum itself. -/
namespace Formulas

namespace Decimal

/-- The exact value of a decimal without its sign. -/
def magnitude (d : Decimal) : ℚ :=
  d.coefficient * 10 ^ d.exponent

theorem magnitude_trim (negative : Bool) (coefficient : Nat) (exponent : Int) :
    (trim negative coefficient exponent).magnitude = coefficient * 10 ^ exponent := by
  fun_induction trim negative coefficient exponent with
  | case1 coefficient exponent hZero ih =>
      have hCoefficient : coefficient = coefficient / 10 * 10 := by omega
      rw [ih, zpow_add_one₀ (by norm_num)]
      conv_rhs => rw [hCoefficient]
      push_cast
      ring
  | case2 coefficient exponent hDigit => rfl

theorem negative_trim (negative : Bool) (coefficient : Nat) (exponent : Int) :
    (trim negative coefficient exponent).negative = negative := by
  fun_induction trim negative coefficient exponent with
  | case1 coefficient exponent hZero ih => exact ih
  | case2 coefficient exponent hDigit => rfl

/-- A decimal beyond the upper bound on magnitudes is beyond every datum. -/
theorem le_magnitude_of_isVast {d : Decimal} (hCoefficient : d.coefficient ≠ 0)
    (hVast : d.isVast = true) : (10 : ℚ) ^ (310 : Int) ≤ d.magnitude := by
  simp only [isVast, decide_eq_true_eq] at hVast
  have hDigits : (10 : ℚ) ^ (d.coefficient.log2 / 4) ≤ d.coefficient := by
    have hPower : 10 ^ (d.coefficient.log2 / 4) ≤ d.coefficient := by
      calc 10 ^ (d.coefficient.log2 / 4)
          ≤ (2 ^ 4) ^ (d.coefficient.log2 / 4) := Nat.pow_le_pow_left (by norm_num) _
        _ = 2 ^ (4 * (d.coefficient.log2 / 4)) := (pow_mul 2 4 _).symm
        _ ≤ 2 ^ d.coefficient.log2 := Nat.pow_le_pow_right (by norm_num) (Nat.mul_div_le _ _)
        _ ≤ d.coefficient := Nat.log2_self_le hCoefficient
    exact_mod_cast hPower
  calc (10 : ℚ) ^ (310 : Int)
      ≤ 10 ^ (((d.coefficient.log2 / 4 : Nat) : Int) + d.exponent) :=
        zpow_le_zpow_right₀ (by norm_num) hVast
    _ = 10 ^ (d.coefficient.log2 / 4) * 10 ^ d.exponent := by
        rw [zpow_add₀ (by norm_num), zpow_natCast]
    _ ≤ d.magnitude := mul_le_mul_of_nonneg_right hDigits (by positivity)

/-- A decimal below the lower bound on magnitudes is below every nonzero datum. -/
theorem magnitude_lt_of_isTiny {d : Decimal} (hTiny : d.isTiny = true) :
    d.magnitude < (10 : ℚ) ^ (-330 : Int) := by
  simp only [isTiny, decide_eq_true_eq] at hTiny
  have hDigits : (d.coefficient : ℚ) < 10 ^ (d.coefficient.log2 / 3 + 1) := by
    have hPower : d.coefficient < 10 ^ (d.coefficient.log2 / 3 + 1) := by
      calc d.coefficient < 2 ^ (d.coefficient.log2 + 1) := Nat.lt_log2_self
        _ ≤ 2 ^ (3 * (d.coefficient.log2 / 3 + 1)) :=
          Nat.pow_le_pow_right (by norm_num) (by omega)
        _ = (2 ^ 3) ^ (d.coefficient.log2 / 3 + 1) := pow_mul 2 3 _
        _ ≤ 10 ^ (d.coefficient.log2 / 3 + 1) := Nat.pow_le_pow_left (by norm_num) _
    exact_mod_cast hPower
  calc d.magnitude
      < 10 ^ (d.coefficient.log2 / 3 + 1) * 10 ^ d.exponent :=
        mul_lt_mul_of_pos_right hDigits (by positivity)
    _ = 10 ^ (((d.coefficient.log2 / 3 + 1 : Nat) : Int) + d.exponent) := by
        rw [zpow_add₀ (by norm_num), zpow_natCast]
    _ ≤ 10 ^ (-330 : Int) := zpow_le_zpow_right₀ (by norm_num) hTiny.le

/-- Ninety-three binary digits are less than twenty-eight decimal ones. -/
theorem two_zpow_le (k : Nat) : (2 : ℚ) ^ (93 * (k : Int)) ≤ 10 ^ (28 * (k : Int)) := by
  have hBlock : (2 : ℚ) ^ (93 : Int) ≤ 10 ^ (28 : Int) := by norm_num
  rw [zpow_mul, zpow_mul, zpow_natCast, zpow_natCast]
  exact pow_le_pow_left₀ (by positivity) hBlock k

theorem least_bound : (10 : ℚ) ^ (-330 : Int) < 2 ^ (-1074 : Int) := by
  have hDigits : (2 : ℚ) ^ (1074 : Int) < 10 ^ (330 : Int) := by
    calc (2 : ℚ) ^ (1074 : Int) = 2 ^ (93 * ((11 : Nat) : Int)) * 2 ^ (51 : Int) := by
          rw [← zpow_add₀ (by norm_num)]; rfl
      _ < 10 ^ (28 * ((11 : Nat) : Int)) * 10 ^ (22 : Int) :=
          mul_lt_mul_of_le_of_lt_of_pos_of_nonneg (two_zpow_le 11) (by norm_num)
            (by positivity) (by positivity)
      _ = 10 ^ (330 : Int) := by rw [← zpow_add₀ (by norm_num)]; rfl
  rw [zpow_neg, zpow_neg]
  exact inv_strictAnti₀ (by positivity) hDigits

theorem greatest_bound : (2 : ℚ) ^ 53 * 2 ^ (971 : Int) < 10 ^ (310 : Int) := by
  calc (2 : ℚ) ^ 53 * 2 ^ (971 : Int) = 2 ^ (93 * ((11 : Nat) : Int)) * 2 ^ (1 : Int) := by
        rw [← zpow_natCast, ← zpow_add₀ (by norm_num), ← zpow_add₀ (by norm_num)]; rfl
    _ < 10 ^ (28 * ((11 : Nat) : Int)) * 10 ^ (2 : Int) :=
        mul_lt_mul_of_le_of_lt_of_pos_of_nonneg (two_zpow_le 11) (by norm_num)
          (by positivity) (by positivity)
    _ = 10 ^ (310 : Int) := by rw [← zpow_add₀ (by norm_num)]; rfl

/-- The values of nonzero finite data keep clear of both bounds. -/
theorem value_bounds {mantissa : Nat} {exponent : Int}
    (hCanonical : Binary64.Canonical mantissa exponent) (hMantissa : mantissa ≠ 0) :
    (10 : ℚ) ^ (-330 : Int) < mantissa * 2 ^ exponent ∧
      (mantissa : ℚ) * 2 ^ exponent < 10 ^ (310 : Int) := by
  obtain ⟨hDigits, hLeast, hGreatest, -⟩ := hCanonical
  constructor
  · have hOne : (1 : ℚ) ≤ mantissa := by exact_mod_cast Nat.pos_of_ne_zero hMantissa
    calc (10 : ℚ) ^ (-330 : Int) < 2 ^ (-1074 : Int) := least_bound
      _ ≤ 2 ^ exponent := zpow_le_zpow_right₀ (by norm_num) hLeast
      _ ≤ mantissa * 2 ^ exponent := le_mul_of_one_le_left (by positivity) hOne
  · have hDigits' : (mantissa : ℚ) < 2 ^ 53 := by exact_mod_cast hDigits
    calc (mantissa : ℚ) * 2 ^ exponent < 2 ^ 53 * 2 ^ exponent :=
          mul_lt_mul_of_pos_right hDigits' (by positivity)
      _ ≤ 2 ^ 53 * 2 ^ (971 : Int) :=
          mul_le_mul_of_nonneg_left (zpow_le_zpow_right₀ (by norm_num) hGreatest) (by norm_num)
      _ < 10 ^ (310 : Int) := greatest_bound

/-- A decimal with the exact value of a nonzero datum reads back as that datum. -/
theorem toBinary64_of_magnitude {d : Decimal} {mantissa : Nat} {exponent : Int}
    (hCanonical : Binary64.Canonical mantissa exponent) (hMantissa : mantissa ≠ 0)
    (hValue : d.magnitude = mantissa * 2 ^ exponent) :
    d.toBinary64 = .finite d.negative mantissa exponent hCanonical := by
  obtain ⟨hLow, hHigh⟩ := value_bounds hCanonical hMantissa
  have hCoefficient : d.coefficient ≠ 0 := by
    intro hZero
    rw [magnitude, hZero, Nat.cast_zero, zero_mul] at hValue
    rw [← hValue] at hLow
    exact absurd hLow (by norm_num)
  have hVast : ¬ d.isVast = true := by
    intro hVast
    have hFar := le_magnitude_of_isVast hCoefficient hVast
    rw [hValue] at hFar
    exact absurd (hFar.trans_lt hHigh) (lt_irrefl _)
  have hTiny : ¬ d.isTiny = true := by
    intro hTiny
    have hNear := magnitude_lt_of_isTiny hTiny
    rw [hValue] at hNear
    exact absurd (hLow.trans hNear) (lt_irrefl _)
  rw [toBinary64, if_neg hCoefficient, if_neg hVast, if_neg hTiny]
  refine Binary64.round_of_value d.negative hCanonical hMantissa
    (scaledRatio_snd_pos (by norm_num) Nat.one_pos _).ne' ?_
  rw [scaledRatio_value (by norm_num), ← hValue, magnitude]
  simp [zpow_neg]

/-- A decimal without places after the point is not read as a value with a fraction. -/
theorem exponent_neg_of_toInt?_eq_none {d : Decimal} (hFinite : d.toBinary64.isFinite = true)
    (hFraction : d.toBinary64.toInt? = none) : d.exponent < 0 := by
  by_contra hSign
  have hZero := Binary64.toInt?_zero_ne_none d.negative
  rw [toBinary64] at hFinite hFraction
  split_ifs at hFinite hFraction with hCoefficient hVast hTiny
  · exact hZero hFraction
  · exact absurd hFinite (by simp [Binary64.isFinite])
  · exact hZero hFraction
  · obtain ⟨places, hPlaces⟩ := Int.eq_ofNat_of_zero_le (not_lt.mp hSign)
    have hScaled : scaledRatio 10 d.coefficient 1 (-d.exponent) =
        (d.coefficient * 10 ^ places, 1) := by
      rw [hPlaces]
      cases places with
      | zero => simp [scaledRatio]
      | succ places => simp [scaledRatio]; omega
    rw [hScaled] at hFinite hFraction
    exact Binary64.toInt?_round_whole_ne_none _ _ hFinite hFraction

end Decimal

namespace Binary64

variable {mantissa : Nat} {exponent : Int}

theorem magnitude_exactDecimal (negative : Bool) (mantissa : Nat) (exponent : Int) :
    (exactDecimal negative mantissa exponent).magnitude = mantissa * 2 ^ exponent := by
  by_cases hSign : 0 ≤ exponent
  · obtain ⟨n, rfl⟩ := Int.eq_ofNat_of_zero_le hSign
    simp [exactDecimal, Decimal.magnitude_trim]
  · obtain ⟨n, rfl⟩ : ∃ n : Nat, exponent = -n := ⟨(-exponent).toNat, by omega⟩
    have hTen : (10 : ℚ) ^ n = 5 ^ n * 2 ^ n := by rw [← mul_pow]; norm_num
    rw [exactDecimal, if_neg hSign, Decimal.magnitude_trim, zpow_neg, zpow_neg, zpow_natCast,
      zpow_natCast, hTen]
    push_cast
    rw [neg_neg, Int.toNat_natCast]
    field_simp

theorem negative_exactDecimal (negative : Bool) (mantissa : Nat) (exponent : Int) :
    (exactDecimal negative mantissa exponent).negative = negative := by
  unfold exactDecimal
  split <;> exact Decimal.negative_trim ..

/-- The search for a short decimal ends with one that reads back. -/
theorem toBinary64_of_readsBackWith? {x : Binary64} {negative : Bool} {num den digits : Nat}
    {first : Int} {d : Decimal}
    (hFound : readsBackWith? x negative num den first digits = some d) : d.toBinary64 = x := by
  simpa using List.find?_some hFound

/-- The shortest decimal of a finite datum reads back as the datum. -/
theorem exists_shortest? (negative : Bool) (hCanonical : Canonical mantissa exponent)
    (hMantissa : mantissa ≠ 0) :
    ∃ d, shortest? (.finite negative mantissa exponent hCanonical) = some d ∧
      d.toBinary64 = .finite negative mantissa exponent hCanonical := by
  simp only [shortest?, if_neg hMantissa, Option.some.injEq, exists_eq_left']
  set ratio := scaledRatio 2 mantissa 1 (-exponent)
  cases hSearch : (List.range 17).findSome? fun k =>
      readsBackWith? (.finite negative mantissa exponent hCanonical) negative ratio.1 ratio.2
        (leadingPower ratio.1 ratio.2) (k + 1) with
  | some d =>
      obtain ⟨k, -, hFound⟩ := List.exists_of_findSome?_eq_some hSearch
      exact toBinary64_of_readsBackWith? hFound
  | none =>
      have hExact := Decimal.toBinary64_of_magnitude (d := exactDecimal negative mantissa exponent)
        hCanonical hMantissa (magnitude_exactDecimal ..)
      rwa [negative_exactDecimal] at hExact

end Binary64

end Formulas

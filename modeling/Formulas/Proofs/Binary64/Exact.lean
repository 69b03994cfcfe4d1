import Formulas.Proofs.Binary64.Rounding

/-! The exact values of finite data. A datum is known from its sign and its exact value. It
has no fraction exactly if its value is an integer, and that integer is rounded to the datum
again, except that zero comes back without a sign. -/
namespace Formulas.Binary64

variable {x y : Binary64} {negative : Bool} {mantissa : Nat} {exponent : Int}
  {hCanonical : Canonical mantissa exponent}

/-- The exact value of a finite datum without its sign. -/
def magnitude : Binary64 → ℚ
  | .finite _ mantissa exponent _ => mantissa * 2 ^ exponent
  | _ => 0

/-- Zero without its sign; all other data stay as they are. -/
def dropZeroSign (x : Binary64) : Binary64 :=
  if x = zero true then zero false else x

theorem dropZeroSign_zero (negative : Bool) : (zero negative).dropZeroSign = zero false := by
  cases negative <;> decide

theorem dropZeroSign_of_ne (hNonzero : x ≠ zero true) : x.dropZeroSign = x :=
  if_neg hNonzero

theorem toRat_eq (x : Binary64) :
    x.toRat = if x.isNegative then -x.magnitude else x.magnitude := by
  cases x with
  | nan label => simp [toRat, magnitude]
  | infinite negative => simp [toRat, magnitude]
  | finite negative mantissa exponent hCanonical => rfl

theorem magnitude_nonneg (x : Binary64) : 0 ≤ x.magnitude := by
  cases x with
  | nan label => exact le_rfl
  | infinite negative => exact le_rfl
  | finite negative mantissa exponent hCanonical => simp only [magnitude]; positivity

/-- There is one zero of each sign. -/
theorem eq_zero_of_magnitude (hFinite : x.isFinite = true) (hZero : x.magnitude = 0) :
    x = zero x.isNegative := by
  cases x with
  | nan label => simp [isFinite] at hFinite
  | infinite negative => simp [isFinite] at hFinite
  | finite negative mantissa exponent hCanonical =>
      obtain rfl : mantissa = 0 := by simpa [magnitude, zpow_ne_zero] using hZero
      obtain rfl : exponent = -1074 := hCanonical.2.2.2 (by norm_num)
      rfl

/-- Two finite data of the same sign and the same magnitude are the same. -/
theorem eq_of_magnitude (hx : x.isFinite = true) (hy : y.isFinite = true)
    (hSign : x.isNegative = y.isNegative) (hValue : x.magnitude = y.magnitude) : x = y := by
  by_cases hZero : x.magnitude = 0
  · rw [eq_zero_of_magnitude hx hZero, eq_zero_of_magnitude hy (hValue ▸ hZero), hSign]
  · cases x with
    | nan label => simp [isFinite] at hx
    | infinite negative => simp [isFinite] at hx
    | finite negative mantissa exponent hCanonical =>
        cases y with
        | nan label => simp [isFinite] at hy
        | infinite negative => simp [isFinite] at hy
        | finite negative' mantissa' exponent' hCanonical' =>
            obtain rfl : negative = negative' := hSign
            have hMantissa : mantissa ≠ 0 := by
              rintro rfl
              simp [magnitude] at hZero
            have hMantissa' : mantissa' ≠ 0 := by
              rintro rfl
              rw [hValue] at hZero
              simp [magnitude] at hZero
            -- Both data are what one and the same ratio is rounded to.
            set ratio := scaledRatio 2 mantissa 1 (-exponent) with hScaled
            have hDen : ratio.2 ≠ 0 := (scaledRatio_snd_pos two_ne_zero Nat.one_pos _).ne'
            have hRatio : (ratio.1 : ℚ) / ratio.2 = mantissa * 2 ^ exponent := by
              rw [hScaled, scaledRatio_value two_ne_zero]
              simp [zpow_neg]
            rw [← round_of_value negative hCanonical hMantissa hDen hRatio,
              round_of_value negative hCanonical' hMantissa' hDen (hRatio.trans hValue)]

/-- The sign of a value other than zero is the sign of the datum. -/
theorem isNegative_of_toRat_ne_zero (hNonzero : x.toRat ≠ 0) :
    x.isNegative = decide (x.toRat < 0) := by
  have hMagnitude := x.magnitude_nonneg
  rw [toRat_eq] at hNonzero ⊢
  cases hSign : x.isNegative with
  | false => simpa [hSign] using hMagnitude
  | true =>
      have hPositive : 0 < x.magnitude := by
        refine lt_of_le_of_ne hMagnitude fun hZero => hNonzero ?_
        simp [← hZero]
      simpa using hPositive

/-- Finite data with the same exact value are the same, but for the sign of zero. -/
theorem eq_of_toRat (hx : x.isFinite = true) (hy : y.isFinite = true)
    (hValue : x.toRat = y.toRat) (hNonzero : x.toRat ≠ 0) : x = y := by
  have hSign : x.isNegative = y.isNegative := by
    rw [isNegative_of_toRat_ne_zero hNonzero, isNegative_of_toRat_ne_zero (hValue ▸ hNonzero),
      hValue]
  refine eq_of_magnitude hx hy hSign ?_
  rw [toRat_eq, toRat_eq, hSign] at hValue
  cases hNegative : y.isNegative with
  | false => simpa [hNegative] using hValue
  | true => simpa [hNegative] using hValue

/-- A datum without a fraction has a natural number as its magnitude. -/
theorem toInt?_finite_eq_some_iff {n : Int} :
    toInt? (.finite negative mantissa exponent hCanonical) = some n ↔
      ∃ k : Nat, (mantissa : ℚ) * 2 ^ exponent = k ∧ n = if negative then -(k : Int) else k := by
  by_cases hSign : 0 ≤ exponent
  · obtain ⟨places, rfl⟩ := Int.eq_ofNat_of_zero_le hSign
    have hWhole : (mantissa : ℚ) * 2 ^ (places : Int) = (mantissa * 2 ^ places : Nat) := by
      simp
    simp only [hWhole, Nat.cast_inj, exists_eq_left']
    simp [toInt?, eq_comm]
  · obtain ⟨places, rfl⟩ : ∃ places : Nat, exponent = -places := ⟨(-exponent).toNat, by omega⟩
    have hPower : (2 : ℚ) ^ places ≠ 0 := by positivity
    by_cases hWhole : 2 ^ places ∣ mantissa
    · obtain ⟨whole, rfl⟩ := hWhole
      have hValue : ((2 ^ places * whole : Nat) : ℚ) * 2 ^ (-places : Int) = (whole : Nat) := by
        rw [zpow_neg, zpow_natCast]
        push_cast
        field_simp
      simp only [hValue, Nat.cast_inj, exists_eq_left', toInt?, if_neg hSign, neg_neg,
        Int.toNat_natCast, Nat.mul_mod_right, if_true,
        Nat.mul_div_cancel_left _ (Nat.two_pow_pos _)]
      simp [eq_comm]
    · have hNone : toInt? (.finite negative mantissa (-places) hCanonical) = none :=
        toInt?_finite_eq_none_iff.mpr ⟨by omega, by simpa using hWhole⟩
      rw [hNone]
      simp only [reduceCtorEq, false_iff]
      rintro ⟨k, hValue, -⟩
      apply hWhole
      rw [zpow_neg, zpow_natCast, ← div_eq_mul_inv, div_eq_iff hPower] at hValue
      exact ⟨k, by rw [Nat.mul_comm]; exact_mod_cast hValue⟩

/-- A magnitude with a sign is an integer exactly if the magnitude is a natural number. -/
theorem signed_eq_intCast_iff {magnitude : ℚ} (hMagnitude : 0 ≤ magnitude) {n : Int} :
    (if negative then -magnitude else magnitude) = n ↔
      ∃ k : Nat, magnitude = k ∧ n = if negative then -(k : Int) else k := by
  constructor
  · intro hValue
    have hAbs : |if negative then -magnitude else magnitude| = magnitude := by
      cases negative <;> simp [abs_of_nonneg hMagnitude]
    obtain ⟨k, rfl⟩ : ∃ k : Nat, magnitude = k :=
      ⟨n.natAbs, by rw [← hAbs, hValue, Nat.cast_natAbs, Int.cast_abs]⟩
    refine ⟨k, rfl, ?_⟩
    cases negative with
    | false =>
        rw [if_neg Bool.false_ne_true] at hValue ⊢
        exact_mod_cast hValue.symm
    | true =>
        rw [if_pos rfl] at hValue ⊢
        exact_mod_cast hValue.symm
  · rintro ⟨k, rfl, rfl⟩
    cases negative <;> simp

/-- A finite datum has no fraction exactly if its value is an integer. -/
theorem toInt?_eq_some_iff (hFinite : x.isFinite = true) {n : Int} :
    x.toInt? = some n ↔ x.toRat = n := by
  cases x with
  | nan label => simp [isFinite] at hFinite
  | infinite negative => simp [isFinite] at hFinite
  | finite negative mantissa exponent hCanonical =>
      have hMagnitude : (0 : ℚ) ≤ mantissa * 2 ^ exponent := by positivity
      rw [toInt?_finite_eq_some_iff, toRat]
      exact (signed_eq_intCast_iff hMagnitude).symm

/-- The integer that a datum stands for is rounded to the datum, without the sign of zero. -/
theorem ofInt_of_toInt? {n : Int} (hWhole : x.toInt? = some n) : ofInt n = x.dropZeroSign := by
  cases x with
  | nan label => simp [toInt?] at hWhole
  | infinite negative => simp [toInt?] at hWhole
  | finite negative mantissa exponent hCanonical =>
      obtain ⟨k, hValue, rfl⟩ := toInt?_finite_eq_some_iff.mp hWhole
      have hAbs : (if negative then -(k : Int) else k : Int).natAbs = k := by
        cases negative <;> simp
      by_cases hMantissa : mantissa = 0
      · have hZero := eq_zero_of_magnitude (x := .finite negative mantissa exponent hCanonical)
          rfl (by simp [magnitude, hMantissa])
        obtain rfl : k = 0 := by simpa [hMantissa, eq_comm] using hValue
        rw [hZero, dropZeroSign_zero]
        simp [ofInt, round]
      · have hk : k ≠ 0 := by
          rintro rfl
          simp [hMantissa, zpow_ne_zero] at hValue
        have hSign : decide ((if negative then -(k : Int) else k : Int) < 0) = negative := by
          cases negative with
          | false => simp
          | true => simpa using Nat.pos_of_ne_zero hk
        have hNonzero : finite negative mantissa exponent hCanonical ≠ zero true := by
          intro hZero
          exact hMantissa (Binary64.finite.inj hZero).2.1
        rw [ofInt, hAbs, hSign, dropZeroSign_of_ne hNonzero]
        exact round_of_value negative hCanonical hMantissa one_ne_zero (by simp [hValue])

end Formulas.Binary64

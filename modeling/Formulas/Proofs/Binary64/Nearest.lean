import Formulas.Proofs.Binary64.Exact
import Formulas.Proofs.Binary64.Overflow
import Formulas.Proofs.Decimal.Shortest
import Mathlib.Algebra.Ring.Parity

/-! Rounding to nearest. A ratio is rounded to the closest canonical pair of mantissa and exponent,
a tie going to the even mantissa, and only one datum is the nearest in this sense. The same holds
of decimals, whatever their exponent. -/
namespace Formulas

/-- A ratio is at most one half away from the integer that it is rounded to, and only so far from
an even one. -/
theorem roundHalfEven_error (num : Nat) {den : Nat} (hDen : 0 < den) :
    |(roundHalfEven num den : ℚ) - num / den| ≤ 1 / 2 ∧
      (|(roundHalfEven num den : ℚ) - num / den| = 1 / 2 → Even (roundHalfEven num den)) := by
  have hDen' : (0 : ℚ) < den := Nat.cast_pos.mpr hDen
  have hRatio : (num : ℚ) / den = (num / den : Nat) + (num % den : Nat) / (den : ℚ) := by
    rw [eq_comm, ← eq_sub_iff_add_eq', div_eq_iff hDen'.ne', sub_mul, div_mul_cancel₀ _ hDen'.ne',
      eq_sub_iff_add_eq']
    exact_mod_cast Nat.div_add_mod' num den
  have hRemainder : num % den < den := Nat.mod_lt num hDen
  unfold roundHalfEven
  dsimp only
  generalize num / den = quotient at hRatio
  generalize num % den = remainder at hRatio hRemainder
  rw [hRatio]
  split_ifs with hDown
  · have hDistance : |(quotient : ℚ) - (quotient + remainder / den)| = remainder / den := by
      rw [sub_add_cancel_left, abs_neg, abs_of_nonneg (by positivity)]
    rw [hDistance, div_le_div_iff₀ hDen' two_pos, div_eq_div_iff hDen'.ne' two_ne_zero]
    norm_cast
    refine ⟨by omega, fun hTie => Nat.even_iff.mpr (by omega)⟩
  · have hDistance : |((quotient + 1 : Nat) : ℚ) - (quotient + remainder / den)| =
        (den - remainder : Nat) / den := by
      rw [Nat.cast_sub hRemainder.le, sub_div, div_self hDen'.ne', Nat.cast_add_one,
        add_sub_add_left_eq_sub, abs_of_nonneg]
      exact sub_nonneg.mpr ((div_le_one hDen').mpr (by exact_mod_cast hRemainder.le))
    rw [hDistance, div_le_div_iff₀ hDen' two_pos, div_eq_div_iff hDen'.ne' two_ne_zero]
    norm_cast
    refine ⟨by omega, fun hTie => Nat.even_iff.mpr (by omega)⟩

/-- Any other integer is away by what is missing to one. -/
theorem one_le_error_add {k m : Nat} (hOther : k ≠ m) (ratio : ℚ) :
    1 ≤ |(m : ℚ) - ratio| + |(k : ℚ) - ratio| := by
  have hApart : (1 : ℚ) ≤ |(k : ℚ) - m| := by
    have hInt : (1 : Int) ≤ |(k : Int) - m| := Int.one_le_abs (by omega)
    exact_mod_cast hInt
  calc (1 : ℚ) ≤ |(k : ℚ) - m| := hApart
    _ ≤ |(k : ℚ) - ratio| + |ratio - m| := abs_sub_le _ _ _
    _ = |(m : ℚ) - ratio| + |(k : ℚ) - ratio| := by rw [abs_sub_comm ratio, add_comm]

/-- No integer is closer to a ratio than the one that it is rounded to. -/
theorem abs_roundHalfEven_le {num den : Nat} (hDen : 0 < den) (k : Nat) :
    |(roundHalfEven num den : ℚ) - num / den| ≤ |(k : ℚ) - num / den| := by
  by_cases hOther : k = roundHalfEven num den
  · rw [hOther]
  · have hHalf := (roundHalfEven_error num hDen).1
    have hApart := one_le_error_add hOther ((num : ℚ) / den)
    linarith

/-- If another integer is as close, the one that the ratio is rounded to is even. -/
theorem even_roundHalfEven {num den k : Nat} (hDen : 0 < den) (hOther : k ≠ roundHalfEven num den)
    (hTie : |(roundHalfEven num den : ℚ) - num / den| = |(k : ℚ) - num / den|) :
    Even (roundHalfEven num den) := by
  obtain ⟨hHalf, hEven⟩ := roundHalfEven_error num hDen
  have hApart := one_le_error_add hOther ((num : ℚ) / den)
  exact hEven (by linarith)

namespace Binary64

/-- No canonical pair is closer to the ratio, and if another one is as close, the mantissa is
even. -/
structure IsClosest (mantissa : Nat) (exponent : Int) (ratio : ℚ) : Prop where
  nearest : ∀ m e, Canonical m e →
    |(mantissa : ℚ) * 2 ^ exponent - ratio| ≤ |(m : ℚ) * 2 ^ e - ratio|
  even : ∀ m e, Canonical m e → (m : ℚ) * 2 ^ e ≠ mantissa * 2 ^ exponent →
    |(mantissa : ℚ) * 2 ^ exponent - ratio| = |(m : ℚ) * 2 ^ e - ratio| → Even mantissa

/-- The datum nearest to a ratio with a sign. From the middle between the largest finite number
and the next power of two on this is an infinity. -/
inductive IsNearest (negative : Bool) (ratio : ℚ) : Binary64 → Prop
  | infinite (hBeyond : overflowBound ≤ ratio) : IsNearest negative ratio (.infinite negative)
  | finite {mantissa : Nat} {exponent : Int} (canonical : Canonical mantissa exponent)
      (hBelow : ratio < overflowBound) (hClosest : IsClosest mantissa exponent ratio) :
      IsNearest negative ratio (.finite negative mantissa exponent canonical)

variable {negative : Bool} {mantissa m : Nat} {exponent e : Int} {ratio : ℚ} {x y : Binary64}

/-- A canonical pair is a multiple of a power of two, or below all the pairs with 53 binary digits
that are. -/
theorem grid_cases (hCanonical : Canonical m e) (exponent : Int) :
    (∃ k : Nat, (m : ℚ) * 2 ^ e = k * 2 ^ exponent) ∨
      -1074 < exponent ∧ (m : ℚ) * 2 ^ e < 2 ^ 52 * 2 ^ exponent := by
  obtain ⟨hDigits, hLeast, -, -⟩ := hCanonical
  rcases le_or_gt exponent e with hLe | hLt
  · obtain ⟨places, hPlaces⟩ := Int.le.dest hLe
    refine .inl ⟨m * 2 ^ places, ?_⟩
    rw [← hPlaces, zpow_add₀ two_ne_zero, zpow_natCast]
    push_cast
    ring
  · refine .inr ⟨hLeast.trans_lt hLt, ?_⟩
    have hDigits' : (m : ℚ) < 2 ^ 53 := by exact_mod_cast hDigits
    calc (m : ℚ) * 2 ^ e < 2 ^ 53 * 2 ^ e := mul_lt_mul_of_pos_right hDigits' (by positivity)
      _ = 2 ^ 52 * 2 ^ (e + 1) := by rw [zpow_add_one₀ two_ne_zero]; ring
      _ ≤ 2 ^ 52 * 2 ^ exponent :=
          mul_le_mul_of_nonneg_left (zpow_le_zpow_right₀ one_le_two hLt) (by positivity)

section Scaled

variable {num den : Nat} {scale : Int}

/-- Measured in units of a power of two, a distance is smaller by that power. -/
theorem abs_scaled_sub (hRatio : (num : ℚ) / den = ratio / 2 ^ scale) (k : Nat) :
    |(k : ℚ) * 2 ^ scale - ratio| = |(k : ℚ) - num / den| * 2 ^ scale := by
  have hPower : (0 : ℚ) < 2 ^ scale := by positivity
  rw [hRatio, ← abs_of_pos hPower, ← abs_mul, abs_of_pos hPower, sub_mul,
    div_mul_cancel₀ _ hPower.ne']

theorem abs_rounded_sub_le (hDen : 0 < den) (hRatio : (num : ℚ) / den = ratio / 2 ^ scale)
    (k : Nat) :
    |(roundHalfEven num den : ℚ) * 2 ^ scale - ratio| ≤ |(k : ℚ) * 2 ^ scale - ratio| := by
  rw [abs_scaled_sub hRatio, abs_scaled_sub hRatio]
  exact mul_le_mul_of_nonneg_right (abs_roundHalfEven_le hDen k) (by positivity)

/-- What is below all integers with 53 binary digits is farther away than one that a ratio with so
many digits is rounded to. -/
theorem abs_rounded_sub_lt (hDen : 0 < den) (hRatio : (num : ℚ) / den = ratio / 2 ^ scale)
    (hDigits : 2 ^ 52 ≤ num / den) {value : ℚ} (hSmall : value < 2 ^ 52 * 2 ^ scale) :
    |(roundHalfEven num den : ℚ) * 2 ^ scale - ratio| < |value - ratio| := by
  have hPower : (0 : ℚ) < 2 ^ scale := by positivity
  have hCast : ((2 ^ 52 : Nat) : ℚ) = 2 ^ 52 := by norm_num
  have hLeast : (2 : ℚ) ^ 52 * 2 ^ scale ≤ ratio := by
    rw [← le_div_iff₀ hPower, ← hRatio, ← hCast, le_div_iff₀ (Nat.cast_pos.mpr hDen)]
    exact_mod_cast (Nat.le_div_iff_mul_le hDen).mp hDigits
  calc |(roundHalfEven num den : ℚ) * 2 ^ scale - ratio|
      ≤ |((2 ^ 52 : Nat) : ℚ) * 2 ^ scale - ratio| := abs_rounded_sub_le hDen hRatio _
    _ = ratio - 2 ^ 52 * 2 ^ scale := by
        rw [hCast, abs_sub_comm, abs_of_nonneg (sub_nonneg.mpr hLeast)]
    _ < ratio - value := sub_lt_sub_left hSmall ratio
    _ ≤ |value - ratio| := by rw [abs_sub_comm]; exact le_abs_self _

/-- A pair is closest to a ratio when, measured at an exponent where the ratio has 53 binary digits
or the least one, it is the integer that the ratio is rounded to. -/
theorem isClosest_of_rounded (hDen : 0 < den) (hRatio : (num : ℚ) / den = ratio / 2 ^ scale)
    (hDigits : scale ≠ -1074 → 2 ^ 52 ≤ num / den)
    (hValue : (mantissa : ℚ) * 2 ^ exponent = roundHalfEven num den * 2 ^ scale)
    (hEven : Even (roundHalfEven num den) → Even mantissa) :
    IsClosest mantissa exponent ratio := by
  constructor
  · intro m e hCanonical
    rw [hValue]
    rcases grid_cases hCanonical scale with ⟨k, hMultiple⟩ | ⟨hScale, hSmall⟩
    · rw [hMultiple]
      exact abs_rounded_sub_le hDen hRatio k
    · exact (abs_rounded_sub_lt hDen hRatio (hDigits hScale.ne') hSmall).le
  · intro m e hCanonical hOther hTie
    rw [hValue] at hOther hTie
    rcases grid_cases hCanonical scale with ⟨k, hMultiple⟩ | ⟨hScale, hSmall⟩
    · rw [hMultiple, abs_scaled_sub hRatio, abs_scaled_sub hRatio] at hTie
      have hInteger : k ≠ roundHalfEven num den := by
        rintro rfl
        exact hOther hMultiple
      exact hEven (even_roundHalfEven hDen hInteger (mul_right_cancel₀ (by positivity) hTie))
    · exact absurd hTie (abs_rounded_sub_lt hDen hRatio (hDigits hScale.ne') hSmall).ne

end Scaled

/-- Zero is closest to a ratio up to half the least positive number. -/
theorem isClosest_zero (hNonneg : 0 ≤ ratio) (hTwice : 2 * ratio ≤ 2 ^ (-1074 : Int)) :
    IsClosest 0 (-1074) ratio := by
  refine ⟨fun m e hCanonical => ?_, fun _ _ _ _ _ => Even.zero⟩
  rw [Nat.cast_zero, zero_mul, zero_sub, abs_neg, abs_of_nonneg hNonneg]
  obtain ⟨k, hMultiple⟩ := (grid_cases hCanonical (-1074)).resolve_right
    fun hSmall => lt_irrefl _ hSmall.1
  rw [hMultiple]
  rcases Nat.eq_zero_or_pos k with rfl | hPositive
  · rw [Nat.cast_zero, zero_mul, zero_sub, abs_neg]
    exact le_abs_self ratio
  · have hOne : (1 : ℚ) ≤ k := by exact_mod_cast hPositive
    have hMore : (2 : ℚ) ^ (-1074 : Int) ≤ k * 2 ^ (-1074 : Int) :=
      le_mul_of_one_le_left (by positivity) hOne
    exact le_trans (by linarith) (le_abs_self _)

/-- The datum that is assembled has the value of the digits, and an even mantissa if they are. -/
theorem assemble_cases (negative : Bool) (hDigits : m ≤ 2 ^ 53) (hLeast : -1074 ≤ e)
    (hNormal : m < 2 ^ 52 → e = -1074) :
    assemble negative m e = .infinite negative ∨ ∃ mantissa exponent canonical,
      assemble negative m e = .finite negative mantissa exponent canonical ∧
        (mantissa : ℚ) * 2 ^ exponent = m * 2 ^ e ∧ (Even m → Even mantissa) := by
  unfold assemble
  split_ifs with hCanonical hCarry
  · exact .inr ⟨m, e, hCanonical, rfl, rfl, id⟩
  · -- the carry
    obtain rfl : m = 2 ^ 53 := by
      by_contra hOther
      have hGreatest := hCarry.2.2.1
      exact hCanonical ⟨lt_of_le_of_ne hDigits hOther, hLeast, by omega, hNormal⟩
    refine .inr ⟨_, _, hCarry, rfl, ?_, fun _ => ⟨2 ^ 51, by norm_num⟩⟩
    rw [zpow_add_one₀ two_ne_zero]
    norm_num
    ring
  · exact .inl rfl

/-- A ratio is rounded to the nearest datum. -/
theorem isNearest_round (negative : Bool) (num : Nat) {den : Nat} (hDen : den ≠ 0) :
    IsNearest negative ((num : ℚ) / den) (round negative num den) := by
  have hFinite : (round negative num den).isFinite = true ↔ (num : ℚ) / den < overflowBound :=
    isFinite_round_iff negative hDen
  by_cases hNum : num = 0
  · simp only [round, if_pos hNum, zero, isFinite, true_iff] at hFinite ⊢
    have hZero : (num : ℚ) / den = 0 := by rw [hNum, Nat.cast_zero, zero_div]
    exact .finite _ hFinite (isClosest_zero hZero.ge (by rw [hZero, mul_zero]; positivity))
  · have hSnd : 0 < (scaledRatio 2 num den (roundingExponent num den)).2 :=
      scaledRatio_snd_pos two_ne_zero (Nat.pos_of_ne_zero hDen) _
    have hRatio : ((scaledRatio 2 num den (roundingExponent num den)).1 : ℚ) /
        (scaledRatio 2 num den (roundingExponent num den)).2 =
          num / den / (2 : Nat) ^ roundingExponent num den :=
      scaledRatio_value two_ne_zero _
    obtain ⟨hDigits, hNormal⟩ := scaledRatio_digits hNum hDen
    obtain ⟨hDown, hUp⟩ := roundHalfEven_bounds
      (scaledRatio 2 num den (roundingExponent num den)).1
      (scaledRatio 2 num den (roundingExponent num den)).2
    have hLeast : -1074 ≤ roundingExponent num den := le_max_right ..
    simp only [round, if_neg hNum] at hFinite ⊢
    have hFull (hSmall : roundHalfEven (scaledRatio 2 num den (roundingExponent num den)).1
        (scaledRatio 2 num den (roundingExponent num den)).2 < 2 ^ 52) :
        roundingExponent num den = -1074 := by
      by_contra hLarge
      exact absurd (hDown.trans_lt hSmall) (Nat.not_lt.mpr (hNormal hLarge))
    rcases assemble_cases negative (hUp.trans hDigits) hLeast hFull with
      hInfinite | ⟨mantissa, exponent, canonical, hAssembled, hValue, hEven⟩
    · rw [hInfinite] at hFinite ⊢
      exact .infinite (not_lt.mp fun hBelow => Bool.false_ne_true (hFinite.mpr hBelow))
    · rw [hAssembled] at hFinite ⊢
      exact .finite canonical (hFinite.mp rfl)
        (isClosest_of_rounded hSnd (by exact_mod_cast hRatio) hNormal hValue hEven)

/-- What is strictly between two values is closer to their middle. -/
theorem abs_sub_lt_of_tie {a b c : ℚ} (hLow : a < c) (hHigh : c < b)
    (hTie : |a - ratio| = |b - ratio|) : |c - ratio| < |a - ratio| := by
  rcases abs_eq_abs.mp hTie with hSame | hMiddle
  · linarith
  · have hBelow : a - ratio ≤ 0 := by linarith
    rw [abs_of_nonpos hBelow, abs_lt]
    constructor <;> linarith

/-- No pair lies between a canonical one and the one after it at the same exponent. -/
theorem next_le (hCanonical : Canonical mantissa exponent) (hOther : Canonical m e)
    (hLess : (mantissa : ℚ) * 2 ^ exponent < m * 2 ^ e) :
    ((mantissa + 1 : Nat) : ℚ) * 2 ^ exponent ≤ m * 2 ^ e := by
  have hPower : (0 : ℚ) < 2 ^ exponent := by positivity
  rcases grid_cases hOther exponent with ⟨k, hMultiple⟩ | ⟨hScale, hSmall⟩
  · rw [hMultiple] at hLess ⊢
    have hMore : mantissa < k := by exact_mod_cast lt_of_mul_lt_mul_right hLess hPower.le
    exact mul_le_mul_of_nonneg_right (by exact_mod_cast hMore) hPower.le
  · have hLarge : 2 ^ 52 ≤ mantissa := by
      by_contra hSubnormal
      exact hScale.ne' (hCanonical.2.2.2 (Nat.not_le.mp hSubnormal))
    have hLarge' : (2 : ℚ) ^ 52 ≤ mantissa := by exact_mod_cast hLarge
    have hBelow := hSmall.trans_le (mul_le_mul_of_nonneg_right hLarge' hPower.le)
    exact absurd hLess hBelow.not_gt

/-- Of two pairs that are closest to a ratio neither is less. -/
theorem IsClosest.not_lt (hCanonical : Canonical mantissa exponent) (hOther : Canonical m e)
    (hClosest : IsClosest mantissa exponent ratio) (hOtherClosest : IsClosest m e ratio) :
    ¬ (mantissa : ℚ) * 2 ^ exponent < m * 2 ^ e := by
  intro hLess
  have hTie := le_antisymm (hClosest.nearest m e hOther)
    (hOtherClosest.nearest mantissa exponent hCanonical)
  have hEven := hClosest.even m e hOther hLess.ne' hTie
  have hOtherEven := hOtherClosest.even mantissa exponent hCanonical hLess.ne hTie.symm
  have hReach := next_le hCanonical hOther hLess
  obtain ⟨hDigits, hLeast, hMost, hNormal⟩ := hCanonical
  -- Since the mantissa is even, the next pair has the same exponent.
  have hNext : Canonical (mantissa + 1) exponent := by
    obtain ⟨half, rfl⟩ := hEven
    exact ⟨by omega, hLeast, hMost, fun hSmall => hNormal (by omega)⟩
  have hStep : (mantissa : ℚ) * 2 ^ exponent < ((mantissa + 1 : Nat) : ℚ) * 2 ^ exponent :=
    mul_lt_mul_of_pos_right (by exact_mod_cast Nat.lt_succ_self mantissa) (by positivity)
  rcases hReach.lt_or_eq with hBetween | hSame
  · exact absurd (hClosest.nearest _ _ hNext) (abs_sub_lt_of_tie hStep hBetween hTie).not_ge
  · -- Then the other pair is the next one, whose mantissa is odd.
    have hPair := eq_of_magnitude (x := .finite false (mantissa + 1) exponent hNext)
      (y := .finite false m e hOther) rfl rfl rfl hSame
    obtain ⟨-, rfl, rfl⟩ := Binary64.finite.inj hPair
    exact Nat.not_even_iff_odd.mpr hEven.add_one hOtherEven

/-- Only one datum is the nearest. -/
theorem IsNearest.unique (hx : IsNearest negative ratio x) (hy : IsNearest negative ratio y) :
    x = y := by
  cases hx with
  | infinite hBeyond =>
      cases hy with
      | infinite => rfl
      | finite _ hBelow => exact absurd hBelow (not_lt.mpr hBeyond)
  | finite canonical hBelow hClosest =>
      cases hy with
      | infinite hBeyond => exact absurd hBelow (not_lt.mpr hBeyond)
      | finite canonical' _ hClosest' =>
          refine eq_of_magnitude rfl rfl rfl (le_antisymm (not_lt.mp ?_) (not_lt.mp ?_))
          · exact hClosest'.not_lt canonical' canonical hClosest
          · exact hClosest.not_lt canonical canonical' hClosest'

end Binary64

namespace Decimal

theorem overflowBound_lt_ten_zpow : (Binary64.overflowBound : ℚ) < 10 ^ (310 : Int) := by
  refine Binary64.overflowBound_lt_zpow.trans ?_
  rw [show (1024 : Int) = (53 : Nat) + 971 from rfl, zpow_add₀ two_ne_zero, zpow_natCast]
  exact greatest_bound

/-- The lower bound on magnitudes is below half the least positive number. -/
theorem two_mul_least_bound : 2 * (10 : ℚ) ^ (-330 : Int) ≤ 2 ^ (-1074 : Int) := by
  have hDigits : (2 : ℚ) ^ (1075 : Int) ≤ 10 ^ (330 : Int) := by
    calc (2 : ℚ) ^ (1075 : Int) = 2 ^ (93 * ((11 : Nat) : Int)) * 2 ^ (52 : Int) := by
          rw [← zpow_add₀ two_ne_zero]; rfl
      _ ≤ 10 ^ (28 * ((11 : Nat) : Int)) * 10 ^ (22 : Int) :=
          mul_le_mul (two_zpow_le 11) (by norm_num) (by positivity) (by positivity)
      _ = 10 ^ (330 : Int) := by rw [← zpow_add₀ (by norm_num)]; rfl
  calc 2 * (10 : ℚ) ^ (-330 : Int) ≤ 2 * 2 ^ (-1075 : Int) := by
        rw [zpow_neg, zpow_neg]
        exact mul_le_mul_of_nonneg_left (inv_anti₀ (by positivity) hDigits) two_pos.le
    _ = 2 ^ (-1074 : Int) := by
        rw [show (-1074 : Int) = 1 + -1075 from rfl, zpow_add₀ two_ne_zero, zpow_one]

/-- A decimal is rounded to the nearest datum. -/
theorem isNearest_toBinary64 (d : Decimal) :
    Binary64.IsNearest d.negative d.magnitude d.toBinary64 := by
  rw [toBinary64]
  split_ifs with hCoefficient hVast hTiny
  · have hRound := Binary64.isNearest_round d.negative 0 one_ne_zero
    simpa [magnitude, hCoefficient, Binary64.round] using hRound
  · exact .infinite (overflowBound_lt_ten_zpow.le.trans (le_magnitude_of_isVast hCoefficient hVast))
  · have hNonneg : 0 ≤ d.magnitude := by unfold magnitude; positivity
    have hTwice : 2 * d.magnitude ≤ 2 ^ (-1074 : Int) :=
      le_trans (by linarith [magnitude_lt_of_isTiny hTiny]) two_mul_least_bound
    have hBelow : d.magnitude < Binary64.overflowBound :=
      calc d.magnitude ≤ 2 * d.magnitude := le_mul_of_one_le_left hNonneg one_le_two
        _ ≤ 2 ^ (-1074 : Int) := hTwice
        _ < 2 ^ (1023 : Int) := zpow_lt_zpow_right₀ one_lt_two (by norm_num)
        _ < Binary64.overflowBound := Binary64.zpow_lt_overflowBound
    exact .finite _ hBelow (Binary64.isClosest_zero hNonneg hTwice)
  · have hDen : (scaledRatio 10 d.coefficient 1 (-d.exponent)).2 ≠ 0 :=
      (scaledRatio_snd_pos (by norm_num) Nat.one_pos _).ne'
    have hRound := Binary64.isNearest_round d.negative
      (scaledRatio 10 d.coefficient 1 (-d.exponent)).1 hDen
    rwa [scaledRatio_value (by norm_num), Nat.cast_one, div_one, zpow_neg, div_inv_eq_mul] at hRound

end Decimal

end Formulas

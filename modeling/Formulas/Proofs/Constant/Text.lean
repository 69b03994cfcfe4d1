import Formulas.Proofs.Decimal.Shortest
import Formulas.Proofs.Numeral.Text
import Formulas.Proofs.Token.Run
import Formulas.Proofs.Token.Text

/-! The texts of constants. Every text of a constant is a single piece, and the text of a
finite constant within the digit limit is read as the normal form of that constant. -/
namespace Formulas

namespace Numeral

theorem isWritable_iff {n : Nat} : isWritable n = true ↔ n < 10 ^ digitLimit :=
  decide_eq_true_iff

theorem toList_toString_int (n : Int) :
    (toString n).toList = sign (decide (n < 0)) ++ Nat.toDigits 10 n.natAbs := by
  rw [Int.toString_eq_repr, Int.repr_eq_if]
  by_cases hSign : 0 ≤ n
  · have hAbs : n.toNat = n.natAbs := by omega
    simp [hSign, not_lt.mpr hSign, sign, hAbs]
  · have hAbs : (-n).toNat = n.natAbs := by omega
    simp [hSign, not_le.mp hSign, sign, hAbs]

/-- The text of an integer is read back if its digits are within the limit. -/
theorem read_toString_int (n : Int) :
    read (toString n) = if isWritable n.natAbs then .number (.integer n) else .tooLong := by
  have hLength : (Nat.toDigits 10 n.natAbs).length ≤ digitLimit ↔ n.natAbs < 10 ^ digitLimit :=
    Nat.length_toDigits_le_iff (by decide) (by decide)
  have hSigned : (if decide (n < 0) = true then -(n.natAbs : Int) else n.natAbs) = n := by
    simp only [decide_eq_true_eq]
    split <;> omega
  rw [read_integer (toList_toString_int n) (arePlain_toDigits _) Nat.toDigits_ne_nil, readInteger,
    List.length_map, ofDigits_map_plainValue, Nat.ofDigitChars_ten_toDigits, hSigned]
  by_cases hWritable : isWritable n.natAbs = true
  · rw [if_pos hWritable, if_neg (not_lt.mpr (hLength.mpr (isWritable_iff.mp hWritable)))]
  · rw [if_neg hWritable, if_pos (not_le.mp (mt (isWritable_iff.mpr ∘ hLength.mp) hWritable))]

end Numeral

/-- Every datum without a fraction is far below the digit limit. -/
theorem Binary64.isWritable_of_toInt? {x : Binary64} {n : Int} (hWhole : x.toInt? = some n) :
    Numeral.isWritable n.natAbs = true := by
  cases x with
  | nan label => simp [toInt?] at hWhole
  | infinite negative => simp [toInt?] at hWhole
  | finite negative mantissa exponent hCanonical =>
      have hMantissa : mantissa < 2 ^ 53 := hCanonical.1
      have hExponent : exponent ≤ 971 := hCanonical.2.2.1
      have hSigned (k : Nat) : (if negative = true then -(k : Int) else k).natAbs = k := by
        cases negative <;> simp
      have hMagnitude : n.natAbs ≤ mantissa * 2 ^ exponent.toNat := by
        by_cases hSign : 0 ≤ exponent
        · have hValue : n.natAbs = mantissa * 2 ^ exponent.toNat := by
            rw [← hSigned (mantissa * _)]
            simp_all [toInt?]
          exact hValue.le
        · have hDivides : mantissa % 2 ^ (-exponent).toNat = 0 := by
            by_contra hFraction
            simp [toInt?, hSign, hFraction] at hWhole
          have hValue : n.natAbs = mantissa / 2 ^ (-exponent).toNat := by
            rw [← hSigned (mantissa / _)]
            simp_all [toInt?]
          exact hValue ▸ (Nat.div_le_self ..).trans (Nat.le_mul_of_pos_right _ (Nat.two_pow_pos _))
      have hLimit : mantissa * 2 ^ exponent.toNat < 10 ^ Numeral.digitLimit := by
        calc mantissa * 2 ^ exponent.toNat
            < 2 ^ 53 * 2 ^ exponent.toNat :=
              Nat.mul_lt_mul_of_pos_right hMantissa (Nat.two_pow_pos _)
          _ = 2 ^ (53 + exponent.toNat) := (Nat.pow_add ..).symm
          _ ≤ 2 ^ Numeral.digitLimit := by
              refine Nat.pow_le_pow_right (by decide) ?_
              rw [Numeral.digitLimit]
              omega
          _ ≤ 10 ^ Numeral.digitLimit := Nat.pow_le_pow_left (by decide) _
      exact Numeral.isWritable_iff.mpr (hMagnitude.trans_lt hLimit)

namespace Constant

/-- A constant whose text is a number literal: an integer within the digit limit or a
finite real. -/
def isReadable : Constant → Bool
  | .integer n => Numeral.isWritable n.natAbs
  | .real x => x.isFinite

@[simp] theorem normal_normal (c : Constant) : c.normal.normal = c.normal := by
  cases c with
  | integer n => rfl
  | real x =>
      cases hWhole : x.toInt? with
      | some n => simp [normal, hWhole]
      | none => simp [normal, hWhole]

/-- The text of a constant is read as the normal form of the constant. -/
theorem read_text {c : Constant} (hReadable : c.isReadable = true) :
    Numeral.read c.text = .number c.normal := by
  cases c with
  | integer n => exact (Numeral.read_toString_int n).trans (if_pos hReadable)
  | real x =>
      cases hWhole : x.toInt? with
      | some n =>
          have hNormal : normal (.real x) = .integer n := by simp [normal, hWhole]
          rw [text, hNormal]
          exact (Numeral.read_toString_int n).trans (if_pos (Binary64.isWritable_of_toInt? hWhole))
      | none =>
          have hNormal : normal (.real x) = .real x := by simp [normal, hWhole]
          rw [text, hNormal]
          cases x with
          | nan label => simp [isReadable, Binary64.isFinite] at hReadable
          | infinite negative => simp [isReadable, Binary64.isFinite] at hReadable
          | finite negative mantissa exponent hCanonical =>
              have hMantissa : mantissa ≠ 0 := by
                rintro rfl
                rw [Binary64.toInt?_finite_eq_none_iff] at hWhole
                exact hWhole.2 (dvd_zero _)
              obtain ⟨d, hShortest, hBack⟩ :=
                Binary64.exists_shortest? negative hCanonical hMantissa
              have hText : literal (.real (.finite negative mantissa exponent hCanonical)) =
                  d.text := by
                simp [literal, Binary64.text, hShortest]
              have hPlaces : d.exponent < 0 :=
                Decimal.exponent_neg_of_toInt?_eq_none (by rw [hBack]; rfl) (by rwa [hBack])
              rw [hText, Numeral.read_decimal_text hPlaces, hBack]

/-- The text of a constant is a number literal, if one of too many digits, or a name. -/
theorem read_text_ne_other_or_name (c : Constant) :
    Numeral.read c.text ≠ .other ∨ c.text ∈ ["nan", "inf", "-inf"] := by
  by_cases hReadable : c.isReadable = true
  · exact Or.inl (by rw [read_text hReadable]; exact Numeral.Reading.noConfusion)
  · cases c with
    | integer n =>
        left
        rw [show text (.integer n) = toString n from rfl, Numeral.read_toString_int]
        split_ifs <;> exact Numeral.Reading.noConfusion
    | real x =>
        right
        cases x with
        | nan label => exact List.mem_cons_self ..
        | infinite negative =>
            cases negative with
            | false => exact List.mem_cons_of_mem _ (List.mem_cons_self ..)
            | true => exact List.mem_cons_of_mem _ (List.mem_cons_of_mem _ (List.mem_cons_self ..))
        | finite negative mantissa exponent hCanonical => exact absurd rfl hReadable

/-- The text of every constant is a single piece. -/
theorem isRun_text (c : Constant) : Token.IsRun c.text.toList := by
  rcases read_text_ne_other_or_name c with hRead | hName
  · exact Numeral.isRun_of_read hRead
  · generalize c.text = name at hName
    simp only [List.mem_cons, List.not_mem_nil, or_false] at hName
    rcases hName with rfl | rfl | rfl <;> decide

end Constant

/-- A number literal is neither a symbol nor a coordinate nor a bracket. -/
theorem Token.ofText_of_read {text : String} (hRead : Numeral.read text ≠ .other) :
    ofText text = ofLiteral text := by
  rcases ofText_cases text with ⟨op, rfl⟩ | ⟨which, rfl⟩ | rfl | rfl | hLiteral
  · exact absurd (by cases op <;> decide) hRead
  · exact absurd (by cases which <;> decide) hRead
  · exact absurd (by decide) hRead
  · exact absurd (by decide) hRead
  · exact hLiteral

/-- The text of a readable constant stands for the normal form of the constant. -/
theorem Token.ofText_text {c : Constant} (hReadable : c.isReadable = true) :
    ofText c.text = .number c.normal := by
  have hRead := Constant.read_text hReadable
  rw [ofText_of_read (by rw [hRead]; exact Numeral.Reading.noConfusion), ofLiteral, hRead]

/-- The text of a constant that is not readable stands for no number. -/
theorem Token.ofText_text_of_not_readable {c : Constant} (hUnreadable : c.isReadable = false) :
    (∃ n, c = .integer n ∧ ofText c.text = .oversized) ∨
      ∃ x, c = .real x ∧ ofText c.text = .unknown x.text := by
  cases c with
  | integer n =>
      have hRead : Numeral.read (Constant.text (.integer n)) = .tooLong :=
        (Numeral.read_toString_int n).trans (if_neg (Bool.eq_false_iff.mp hUnreadable))
      refine .inl ⟨n, rfl, ?_⟩
      rw [ofText_of_read (by rw [hRead]; exact Numeral.Reading.noConfusion), ofLiteral, hRead]
  | real x =>
      refine .inr ⟨x, rfl, ?_⟩
      cases x with
      | nan label => exact (by decide : ofText "nan" = .unknown "nan")
      | infinite negative => cases negative <;> decide
      | finite negative mantissa exponent hCanonical => exact Bool.noConfusion hUnreadable

end Formulas

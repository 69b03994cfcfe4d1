import Formulas.Decimal.Layout
import Formulas.Numeral
import Mathlib.Tactic.Common

/-! Literals that were written are read back: the digits of an integer as that integer,
and every layout of a decimal with places after the point as that decimal. -/
namespace Formulas

/-- The ten plain digits come first among the digits of all scripts. -/
theorem Text.digitValue?_of_isDigit {c : Char} (hDigit : c.isDigit = true) :
    digitValue? c = some (c.toNat - '0'.toNat) := by
  have hRange : 48 ≤ c.toNat ∧ c.toNat < 58 := by
    simp only [Char.isDigit, Bool.and_eq_true, decide_eq_true_eq, ge_iff_le] at hDigit
    have hLow : (48 : Nat) ≤ c.toNat := hDigit.1
    have hHigh : c.toNat ≤ 57 := hDigit.2
    omega
  have hFirst : zeroDigits.find? (fun start => decide (start ≤ c.toNat ∧ c.toNat < start + 10)) =
      some 0x30 := by
    rw [zeroDigits, List.find?_cons_of_pos]
    simpa using hRange
  rw [digitValue?, hFirst]
  rfl

namespace Numeral

/-- Characters that are plain digits. -/
def ArePlain (digits : List Char) : Prop :=
  ∀ c ∈ digits, c.isDigit = true

/-- The value of a plain digit. -/
def plainValue (c : Char) : Nat :=
  c.toNat - '0'.toNat

theorem ArePlain.append {left right : List Char} (hLeft : ArePlain left)
    (hRight : ArePlain right) : ArePlain (left ++ right) := by
  intro c hc
  rcases List.mem_append.mp hc with hc | hc
  · exact hLeft c hc
  · exact hRight c hc

theorem ArePlain.take {digits : List Char} (hDigits : ArePlain digits) (count : Nat) :
    ArePlain (digits.take count) := by
  intro c hc
  exact hDigits c (List.mem_of_mem_take hc)

theorem ArePlain.drop {digits : List Char} (hDigits : ArePlain digits) (count : Nat) :
    ArePlain (digits.drop count) := by
  intro c hc
  exact hDigits c (List.mem_of_mem_drop hc)

theorem arePlain_replicate_zero (count : Nat) : ArePlain (List.replicate count '0') := by
  intro c hc
  rw [List.eq_of_mem_replicate hc]
  decide

theorem arePlain_toDigits (n : Nat) : ArePlain (Nat.toDigits 10 n) := by
  intro c hc
  exact Nat.isDigit_of_mem_toDigits (by decide) (by decide) hc

theorem ofDigits_map_plainValue (digits : List Char) :
    ofDigits (digits.map plainValue) = Nat.ofDigitChars 10 digits 0 := by
  rw [ofDigits, List.foldl_map, Nat.ofDigitChars_eq_foldl]
  rfl

/-- Leading digits are taken up to the first other character. -/
theorem takeDigits_append {digits rest : List Char} (hDigits : ArePlain digits)
    (hRest : takeDigits rest = ([], rest)) :
    takeDigits (digits ++ rest) = (digits.map plainValue, rest) := by
  induction digits with
  | nil => exact hRest
  | cons c digits ih =>
      have hFirst := Text.digitValue?_of_isDigit (hDigits c (List.mem_cons_self ..))
      have hFollowing := ih fun d hd => hDigits d (List.mem_cons_of_mem c hd)
      rw [List.cons_append, takeDigits, hFirst, hFollowing]
      rfl

theorem takeDigits_plain {digits : List Char} (hDigits : ArePlain digits) :
    takeDigits digits = (digits.map plainValue, []) := by
  have hAll : takeDigits (digits ++ []) = (digits.map plainValue, []) :=
    takeDigits_append hDigits rfl
  rwa [List.append_nil] at hAll

theorem takeDigits_point (rest : List Char) : takeDigits ('.' :: rest) = ([], '.' :: rest) := by
  rw [takeDigits, show Text.digitValue? '.' = none by decide]

theorem takeDigits_mark (rest : List Char) : takeDigits ('e' :: rest) = ([], 'e' :: rest) := by
  rw [takeDigits, show Text.digitValue? 'e' = none by decide]

/-- The characters of a sign that is written only before negative numbers. -/
def sign (negative : Bool) : List Char :=
  if negative then ['-'] else []

theorem takeSign_sign (negative : Bool) {digits rest : List Char} (hDigits : ArePlain digits)
    (hSome : digits ≠ []) :
    takeSign (sign negative ++ (digits ++ rest)) = (negative, digits ++ rest) := by
  cases negative with
  | true => rfl
  | false =>
      obtain ⟨c, digits, rfl⟩ := List.exists_cons_of_ne_nil hSome
      have hFirst := hDigits c (List.mem_cons_self ..)
      have hPlus : c ≠ '+' := by rintro rfl; exact absurd hFirst (by decide)
      have hMinus : c ≠ '-' := by rintro rfl; exact absurd hFirst (by decide)
      simp [sign, takeSign, hPlus, hMinus]

/-- A sign and digits are an integer. -/
theorem read_integer {text : String} {negative : Bool} {digits : List Char}
    (hText : text.toList = sign negative ++ digits) (hDigits : ArePlain digits)
    (hSome : digits ≠ []) : read text = readInteger negative (digits.map plainValue) := by
  have hSign : takeSign (sign negative ++ (digits ++ [])) = (negative, digits ++ []) :=
    takeSign_sign negative hDigits hSome
  rw [List.append_nil] at hSign
  rw [read, hText, hSign]
  obtain ⟨c, digits, rfl⟩ := List.exists_cons_of_ne_nil hSome
  simp only [takeDigits_plain hDigits, List.map_cons]

theorem readDecimal_of_exponent {negative : Bool} {whole fraction : List Nat} {rest : List Char}
    {exponent : Int} (hWhole : whole ≠ []) (hExponent : readExponent rest = some exponent) :
    readDecimal negative whole fraction rest = .number (.real (Decimal.toBinary64
      ⟨negative, ofDigits (whole ++ fraction), exponent - fraction.length⟩)) := by
  simp [readDecimal, hWhole, hExponent]

theorem toList_pointText (digits : List Char) (whole : Nat) :
    (Decimal.pointText digits whole).toList = digits.take whole ++
      (if (digits.drop whole).isEmpty then [] else '.' :: digits.drop whole) := by
  cases hEmpty : (digits.drop whole).isEmpty with
  | true => simp only [Decimal.pointText, hEmpty, if_true]; simp
  | false => simp only [Decimal.pointText, hEmpty]; simp

/-- Digits with a point among them, or with an exponent behind them, are a decimal. -/
theorem read_pointText {text : String} {negative : Bool} {digits mark : List Char}
    {whole : Nat} {exponent : Int}
    (hText : text.toList = sign negative ++ ((Decimal.pointText digits whole).toList ++ mark))
    (hDigits : ArePlain digits) (hWhole : digits.take whole ≠ [])
    (hMark : takeDigits mark = ([], mark)) (hExponent : readExponent mark = some exponent)
    (hDecimal : digits.drop whole ≠ [] ∨ ∃ rest, mark = 'e' :: rest) :
    read text = .number (.real (Decimal.toBinary64
      ⟨negative, Nat.ofDigitChars 10 digits 0, exponent - (digits.drop whole).length⟩)) := by
  have hTake := hDigits.take whole
  have hDrop := hDigits.drop whole
  obtain ⟨c, front, hFront⟩ := List.exists_cons_of_ne_nil hWhole
  have hValue : ofDigits ((digits.take whole).map plainValue ++
      (digits.drop whole).map plainValue) = Nat.ofDigitChars 10 digits 0 := by
    rw [← List.map_append, List.take_append_drop, ofDigits_map_plainValue]
  rw [toList_pointText, List.append_assoc] at hText
  by_cases hFraction : digits.drop whole = []
  · obtain ⟨rest, rfl⟩ := hDecimal.resolve_left (fun hSome => hSome hFraction)
    rw [hFraction, List.map_nil, List.append_nil] at hValue
    rw [hFraction] at hText ⊢
    simp only [List.isEmpty_nil, if_true, List.nil_append] at hText
    rw [read, hText, takeSign_sign negative hTake hWhole]
    simp only [takeDigits_append hTake hMark]
    rw [hFront] at hValue ⊢
    simp only [List.map_cons] at hValue ⊢
    simp [readDecimal_of_exponent (List.cons_ne_nil _ _) hExponent, hValue]
  · rw [List.isEmpty_eq_false_iff.mpr hFraction] at hText
    simp only [Bool.false_eq_true, if_false] at hText
    rw [read, hText, takeSign_sign negative hTake hWhole]
    simp only [List.cons_append, takeDigits_append hTake (takeDigits_point _)]
    rw [hFront] at hValue ⊢
    simp only [List.map_cons, takeDigits_append hDrop hMark] at hValue ⊢
    rw [readDecimal_of_exponent (List.cons_ne_nil _ _) hExponent, hValue, List.length_map]

/-- Every exponent is read back. -/
theorem readExponent_exponentText (exponent : Int) :
    readExponent (Decimal.exponentText exponent).toList = some exponent := by
  let digits := toString exponent.natAbs
  let padded := if digits.length < 2 then "0" ++ digits else digits
  have hPadded : ArePlain padded.toList ∧ padded.toList ≠ [] ∧
      Nat.ofDigitChars 10 padded.toList 0 = exponent.natAbs := by
    have hPlain := arePlain_toDigits exponent.natAbs
    by_cases hShort : digits.length < 2
    · have hList : padded.toList = ['0'] ++ Nat.toDigits 10 exponent.natAbs := by
        simp [padded, if_pos hShort, digits]
      rw [hList]
      refine ⟨(arePlain_replicate_zero 1).append hPlain, by simp, ?_⟩
      rw [Nat.ofDigitChars_append]
      exact Nat.ofDigitChars_ten_toDigits
    · have hList : padded.toList = Nat.toDigits 10 exponent.natAbs := by
        simp [padded, if_neg hShort, digits]
      rw [hList]
      exact ⟨hPlain, Nat.toDigits_ne_nil, Nat.ofDigitChars_ten_toDigits⟩
  obtain ⟨hPlain, hSome, hValue⟩ := hPadded
  have hRead (negative : Bool) : takeSign ((if negative then '-' else '+') :: padded.toList) =
      (negative, padded.toList) := by
    cases negative <;> rfl
  have hText : (Decimal.exponentText exponent).toList =
      'e' :: (if decide (exponent < 0) then '-' else '+') :: padded.toList := by
    by_cases hSign : exponent < 0
    · simp [Decimal.exponentText, hSign, padded, digits]
    · simp [Decimal.exponentText, hSign, padded, digits]
  obtain ⟨c, rest, hCons⟩ := List.exists_cons_of_ne_nil hSome
  rw [← ofDigits_map_plainValue] at hValue
  rw [hText, readExponent, if_pos (Or.inl rfl), hRead]
  simp only [takeDigits_plain hPlain]
  rw [hCons, List.map_cons] at hValue ⊢
  simp only [hValue]
  by_cases hSign : exponent < 0
  · simp only [hSign, decide_true, if_true]
    exact congrArg some (by omega)
  · simp only [hSign, decide_false, Bool.false_eq_true, if_false]
    exact congrArg some (by omega)

/-- The text of a decimal is its sign and the layout of its digits. -/
theorem toList_text (d : Decimal) :
    d.text.toList = sign d.negative ++ (Decimal.layout (Nat.toDigits 10 d.coefficient)
      (d.exponent + (Nat.toDigits 10 d.coefficient).length - 1)).toList := by
  have hChars : (toString d.coefficient).toList = Nat.toDigits 10 d.coefficient := by simp
  cases hSign : d.negative with
  | false =>
      simp only [Decimal.text, hSign, hChars]
      simp [sign]
  | true =>
      simp only [Decimal.text, hSign, hChars]
      simp [sign]

/-- The text of a decimal with places after the point is read back as that decimal. -/
theorem read_decimal_text {d : Decimal} (hPlaces : d.exponent < 0) :
    read d.text = .number (.real d.toBinary64) := by
  have hPlain := arePlain_toDigits d.coefficient
  have hSome : Nat.toDigits 10 d.coefficient ≠ [] := Nat.toDigits_ne_nil
  have hText := toList_text d
  set digits := Nat.toDigits 10 d.coefficient with hDigits
  have hValue : Nat.ofDigitChars 10 digits 0 = d.coefficient := Nat.ofDigitChars_ten_toDigits
  have hLength : 0 < digits.length := List.length_pos_iff.mpr hSome
  set first := d.exponent + digits.length - 1 with hFirst
  have hSame (places : Nat) (mark : Int) (hMark : mark - places = d.exponent) :
      (⟨d.negative, Nat.ofDigitChars 10 digits 0, mark - places⟩ : Decimal) = d := by
    rw [hMark, hValue]
  rw [Decimal.layout] at hText
  split_ifs at hText with hFar hBehind hWhole
  · -- one digit before the point, and an exponent
    rw [String.toList_append] at hText
    have hMark : takeDigits (Decimal.exponentText first).toList =
        ([], (Decimal.exponentText first).toList) := by
      simp only [Decimal.exponentText, String.toList_append]
      exact takeDigits_mark _
    rw [read_pointText hText hPlain (by simp [hSome]) hMark (readExponent_exponentText first)
      (Or.inr ⟨_, by simp [Decimal.exponentText]; rfl⟩)]
    rw [hSame _ _ (by rw [List.length_drop]; omega)]
  · -- zeros between the point and the digits
    set zeros := List.replicate (-first - 1).toNat '0' with hZeros
    have hAll : ArePlain ('0' :: (zeros ++ digits)) :=
      (arePlain_replicate_zero 1).append ((arePlain_replicate_zero _).append hPlain)
    have hPoint : (Decimal.pointText ('0' :: (zeros ++ digits)) 1).toList =
        '0' :: '.' :: (zeros ++ digits) := by
      simp [Decimal.pointText, hSome]
    have hAllValue : Nat.ofDigitChars 10 ('0' :: (zeros ++ digits)) 0 =
        Nat.ofDigitChars 10 digits 0 := by
      rw [Nat.ofDigitChars_cons, Nat.ofDigitChars_append, hZeros, Nat.ofDigitChars_replicate_zero]
      simp
    have hAllText : d.text.toList = sign d.negative ++
        ((Decimal.pointText ('0' :: (zeros ++ digits)) 1).toList ++ []) := by
      rw [hText, hPoint]
      simp
    rw [read_pointText hAllText hAll (by simp) rfl rfl (Or.inl (by simp [hSome])), hAllValue,
      hSame _ _ (by simp [hZeros]; omega)]
  · omega
  · -- the point among the digits
    rw [← List.append_nil (Decimal.pointText _ _).toList] at hText
    have hBehindPoint : digits.drop (first.toNat + 1) ≠ [] := by
      rw [ne_eq, List.drop_eq_nil_iff]
      exact hWhole
    rw [read_pointText hText hPlain (by simp [hSome]) rfl rfl (Or.inl hBehindPoint)]
    rw [hSame _ _ (by rw [List.length_drop]; omega)]

end Numeral

end Formulas

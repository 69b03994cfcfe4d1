import Formulas.Proofs.Binary64.Nearest
import Formulas.Proofs.Numeral.Digit

/-! The grammar of number literals. An integer is an optional sign and digits of any scripts; a
decimal has a mantissa with an optional point and an optional exponent. Exactly the texts of these
two forms are read, integers first, and the value is the exact integer or the datum nearest to the
exact decimal. The grammar knows a digit by the row it stands in, apart from how digits are read,
and gives digits by their values. -/
namespace Formulas.Numeral

open scoped Natural

/-- The number that digits stand for, each by its place. -/
def placeValue : List Nat → Nat
  | [] => 0
  | digit :: rest => digit * 10 ^ rest.length + placeValue rest

/-- Characters that are digits, each of any script, with their values. -/
abbrev HasDigits (chars : List Char) (digits : List Nat) : Prop :=
  List.Forall₂ IsDigit chars digits

/-- An optional sign, and whether it negates. -/
inductive Sign : List Char → Bool → Prop
  | none : Sign [] false
  | plus : Sign ['+'] false
  | minus : Sign ['-'] true

/-- A number with a sign. -/
def signed (negative : Bool) (n : Nat) : Int :=
  if negative then -(n : Int) else n

/-- A mantissa with its digits before and after the point. -/
inductive Mantissa : List Char → List Nat → List Nat → Prop
  | whole {chars : List Char} {whole : List Nat} (hWhole : HasDigits chars whole)
      (hSome : whole ≠ []) : Mantissa chars whole []
  | pointed {chars chars' : List Char} {whole fraction : List Nat} (hWhole : HasDigits chars whole)
      (hSome : whole ≠ []) (hFraction : HasDigits chars' fraction) :
      Mantissa (chars ++ '.' :: chars') whole fraction
  | fraction {chars : List Char} {fraction : List Nat} (hFraction : HasDigits chars fraction)
      (hSome : fraction ≠ []) : Mantissa ('.' :: chars) [] fraction

/-- An optional exponent; without one it is zero. -/
inductive Exponent : List Char → Int → Prop
  | none : Exponent [] 0
  | some {mark : Char} {sign chars : List Char} {negative : Bool} {digits : List Nat}
      (hMark : mark = 'e' ∨ mark = 'E') (hSign : Sign sign negative)
      (hDigits : HasDigits chars digits) (hSome : digits ≠ []) :
      Exponent (mark :: (sign ++ chars)) (signed negative (placeValue digits))

/-- The text is an optional sign and digits. -/
def IsInteger (text : String) (negative : Bool) (digits : List Nat) : Prop :=
  ∃ sign chars, Sign sign negative ∧ HasDigits chars digits ∧ digits ≠ [] ∧
    text.toList = sign ++ chars

/-- The text is an optional sign, a mantissa and an optional exponent. -/
def IsDecimal (text : String) (negative : Bool) (whole fraction : List Nat) (exponent : Int) :
    Prop :=
  ∃ sign mantissa tail, Sign sign negative ∧ Mantissa mantissa whole fraction ∧
    Exponent tail exponent ∧ text.toList = sign ++ (mantissa ++ tail)

/-- The exact value of a decimal without its sign. -/
def decimalValue (whole fraction : List Nat) (exponent : Int) : ℚ :=
  (placeValue whole + placeValue fraction / 10 ^ fraction.length) * 10 ^ exponent

variable {c : Char} {chars sign rest tail : List Char} {digits whole fraction : List Nat}
  {negative : Bool} {exponent : Int} {text : String} {value : Nat}

theorem ne_of_isDigit (hDigit : IsDigit c value) : c ≠ '+' ∧ c ≠ '-' := by
  have hRead : Text.isDigit c = true := Text.isDigit_iff.mpr ⟨value, hDigit⟩
  refine ⟨?_, ?_⟩ <;> rintro rfl <;> exact absurd hRead (by decide)

theorem takeSign_of_sign (hSign : Sign sign negative)
    (hRest : ∀ c ∈ rest.head?, c ≠ '+' ∧ c ≠ '-') : takeSign (sign ++ rest) = (negative, rest) := by
  cases hSign with
  | none =>
      cases rest with
      | nil => rfl
      | cons c rest =>
          obtain ⟨hPlus, hMinus⟩ := hRest c rfl
          simp [takeSign, hPlus, hMinus]
  | plus => rfl
  | minus => rfl

/-- A text starts with the sign that is taken from it. -/
theorem exists_takeSign (chars : List Char) : ∃ sign negative rest,
    takeSign chars = (negative, rest) ∧ Sign sign negative ∧ chars = sign ++ rest := by
  unfold takeSign
  split
  · exact ⟨_, _, _, rfl, .plus, rfl⟩
  · exact ⟨_, _, _, rfl, .minus, rfl⟩
  · exact ⟨_, _, _, rfl, .none, rfl⟩

theorem takeDigits_of_hasDigits (hDigits : HasDigits chars digits)
    (hRest : ∀ c ∈ rest.head?, Text.isDigit c = false) :
    takeDigits (chars ++ rest) = (digits, rest) := by
  induction hDigits with
  | nil =>
      cases rest with
      | nil => rfl
      | cons c rest =>
          have hNone : Text.digitValue? c = none := by simpa [Text.isDigit] using hRest c rfl
          rw [List.nil_append, takeDigits, hNone]
  | cons hFirst _ ih =>
      rw [List.cons_append, takeDigits, Text.digitValue?_eq_some_iff.mpr hFirst, ih]

/-- A text starts with the digits that are taken from it. -/
theorem exists_takeDigits (chars : List Char) : ∃ front digits rest,
    takeDigits chars = (digits, rest) ∧ HasDigits front digits ∧ chars = front ++ rest := by
  induction chars with
  | nil => exact ⟨[], [], [], rfl, .nil, rfl⟩
  | cons c chars ih =>
      rw [takeDigits]
      cases hValue : Text.digitValue? c with
      | none => exact ⟨[], [], c :: chars, rfl, .nil, rfl⟩
      | some value =>
          obtain ⟨front, digits, rest, hTaken, hDigits, rfl⟩ := ih
          exact ⟨c :: front, value :: digits, rest, by rw [hTaken],
            .cons (Text.digitValue?_eq_some_iff.mp hValue) hDigits, rfl⟩

/-- Digits that are read after others move those to higher places. -/
theorem foldl_digits (digits : List Nat) (start : Nat) :
    digits.foldl (fun value digit => 10 * value + digit) start =
      start * 10 ^ digits.length + placeValue digits := by
  induction digits generalizing start with
  | nil => simp [placeValue]
  | cons digit digits ih =>
      rw [List.foldl_cons, ih, placeValue, List.length_cons, pow_succ]
      ring

theorem ofDigits_eq_placeValue (digits : List Nat) : ofDigits digits = placeValue digits := by
  rw [ofDigits, foldl_digits, Nat.zero_mul, Nat.zero_add]

theorem ofDigits_append (whole fraction : List Nat) :
    ofDigits (whole ++ fraction) =
      placeValue whole * 10 ^ fraction.length + placeValue fraction := by
  rw [ofDigits, List.foldl_append, foldl_digits, foldl_digits, Nat.zero_mul, Nat.zero_add]

/-- Digits up to the end of the text. -/
theorem takeDigits_digits (hDigits : HasDigits chars digits) : takeDigits chars = (digits, []) := by
  have hAll : takeDigits (chars ++ []) = (digits, []) :=
    takeDigits_of_hasDigits hDigits (by simp)
  rwa [List.append_nil] at hAll

theorem head_of_hasDigits (hDigits : HasDigits chars digits) (hSome : digits ≠ [])
    (rest : List Char) : ∀ c ∈ (chars ++ rest).head?, c ≠ '+' ∧ c ≠ '-' := by
  cases hDigits with
  | nil => exact absurd rfl hSome
  | @cons first _ _ _ hFirst _ =>
      intro c hc
      obtain rfl : first = c := by simpa using hc
      exact ne_of_isDigit hFirst

/-- The exponents that are read are those of the grammar. -/
theorem readExponent_eq_some_iff :
    readExponent chars = some exponent ↔ Exponent chars exponent := by
  constructor
  · intro hRead
    cases chars with
    | nil =>
        obtain rfl : 0 = exponent := Option.some.inj hRead
        exact .none
    | cons mark rest =>
        rw [readExponent] at hRead
        split_ifs at hRead with hMark
        obtain ⟨sign, negative, unsigned, hTakeSign, hSign, rfl⟩ := exists_takeSign rest
        obtain ⟨front, digits, tail, hTakeDigits, hDigits, rfl⟩ := exists_takeDigits unsigned
        rw [hTakeSign] at hRead
        simp only [hTakeDigits] at hRead
        cases digits with
        | nil => simp at hRead
        | cons digit digits =>
            cases tail with
            | cons d tail => simp at hRead
            | nil =>
                obtain rfl : signed negative (ofDigits (digit :: digits)) = exponent :=
                  Option.some.inj hRead
                rw [ofDigits_eq_placeValue, List.append_nil]
                exact .some hMark hSign hDigits (List.cons_ne_nil _ _)
  · intro hExponent
    cases hExponent with
    | none => rfl
    | some hMark hSign hDigits hSome =>
        have hHead := head_of_hasDigits hDigits hSome []
        rw [List.append_nil] at hHead
        rw [readExponent, if_pos hMark, takeSign_of_sign hSign hHead]
        obtain ⟨digit, digits, rfl⟩ := List.exists_cons_of_ne_nil hSome
        simp only [takeDigits_digits hDigits]
        rw [ofDigits_eq_placeValue]
        rfl

theorem Exponent.head (hExponent : Exponent tail exponent) :
    ∀ c ∈ tail.head?, Text.isDigit c = false := by
  cases hExponent with
  | none => simp
  | some hMark =>
      rcases hMark with rfl | rfl
      · simp only [List.head?_cons, Option.mem_some_iff, forall_eq']
        decide
      · simp only [List.head?_cons, Option.mem_some_iff, forall_eq']
        decide

theorem read_of_isInteger (hInteger : IsInteger text negative digits) :
    read text = readInteger negative digits := by
  obtain ⟨sign, chars, hSign, hDigits, hSome, hText⟩ := hInteger
  have hHead := head_of_hasDigits hDigits hSome []
  rw [List.append_nil] at hHead
  rw [read, hText, takeSign_of_sign hSign hHead]
  obtain ⟨digit, digits, rfl⟩ := List.exists_cons_of_ne_nil hSome
  simp only [takeDigits_digits hDigits]

/-- Digits after a sign, no more than the limit, are read as an integer. -/
theorem read_of_isInteger_of_le (hInteger : IsInteger text negative digits)
    (hLimit : digits.length ≤ digitLimit) :
    read text = .number (.integer (signed negative (placeValue digits))) := by
  rw [read_of_isInteger hInteger, readInteger, if_neg (Nat.not_lt.mpr hLimit),
    ofDigits_eq_placeValue]
  rfl

theorem read_of_isInteger_of_lt (hInteger : IsInteger text negative digits)
    (hLimit : digitLimit < digits.length) : read text = .tooLong := by
  rw [read_of_isInteger hInteger, readInteger, if_pos hLimit]

/-- The exact decimal that a text of the form stands for. -/
def decimal (negative : Bool) (whole fraction : List Nat) (exponent : Int) : Decimal :=
  ⟨negative, placeValue whole * 10 ^ fraction.length + placeValue fraction,
    exponent - fraction.length⟩

theorem magnitude_decimal (negative : Bool) (whole fraction : List Nat) (exponent : Int) :
    (decimal negative whole fraction exponent).magnitude =
      decimalValue whole fraction exponent := by
  have hPower : (10 : ℚ) ^ fraction.length ≠ 0 := by positivity
  rw [Decimal.magnitude, decimal, decimalValue, zpow_sub₀ (by norm_num), zpow_natCast]
  push_cast
  field_simp

theorem readDecimal_of_isExponent (negative : Bool) (hSome : whole ≠ [] ∨ fraction ≠ [])
    (hExponent : Exponent tail exponent) :
    readDecimal negative whole fraction tail =
      .number (.real (decimal negative whole fraction exponent).toBinary64) := by
  have hDigits : ¬ (whole.isEmpty ∧ fraction.isEmpty) := by
    simpa [List.isEmpty_iff, or_iff_not_imp_left] using hSome
  rw [readDecimal, if_neg hDigits, readExponent_eq_some_iff.mpr hExponent]
  simp only [ofDigits_append, decimal]

/-- A decimal that is not an integer is read as the exact decimal, rounded. -/
theorem read_of_isDecimal (hDecimal : IsDecimal text negative whole fraction exponent)
    (hOther : ∀ negative digits, ¬ IsInteger text negative digits) :
    read text = .number (.real (decimal negative whole fraction exponent).toBinary64) := by
  obtain ⟨sign, mantissa, tail, hSign, hMantissa, hExponent, hText⟩ := hDecimal
  have hPoint (rest : List Char) : ∀ c ∈ ('.' :: rest).head?, Text.isDigit c = false := by
    simp only [List.head?_cons, Option.mem_some_iff, forall_eq']
    decide
  cases hMantissa with
  | whole hWhole hSome =>
      have hTakeSign := takeSign_of_sign hSign (head_of_hasDigits hWhole hSome tail)
      have hTakeDigits := takeDigits_of_hasDigits hWhole hExponent.head
      have hRead := readDecimal_of_isExponent negative (.inl hSome : _ ∨ [] ≠ []) hExponent
      rw [read, hText, hTakeSign]
      obtain ⟨first, whole, rfl⟩ := List.exists_cons_of_ne_nil hSome
      simp only [hTakeDigits]
      cases hExponent with
      | none => exact (hOther _ _ ⟨sign, _, hSign, hWhole, hSome, by simpa using hText⟩).elim
      | some hMark =>
          rcases hMark with rfl | rfl
          · exact hRead
          · exact hRead
  | @pointed _ chars' _ _ hWhole hSome hFraction =>
      have hTakeSign := takeSign_of_sign hSign
        (head_of_hasDigits hWhole hSome ('.' :: (chars' ++ tail)))
      have hTakeDigits := takeDigits_of_hasDigits hWhole (hPoint (chars' ++ tail))
      have hRead := readDecimal_of_isExponent negative (.inl hSome : _ ∨ fraction ≠ []) hExponent
      rw [read, hText, List.append_assoc, List.cons_append, hTakeSign]
      obtain ⟨first, whole, rfl⟩ := List.exists_cons_of_ne_nil hSome
      simp only [hTakeDigits, takeDigits_of_hasDigits hFraction hExponent.head]
      exact hRead
  | @fraction chars' _ hFraction hSome =>
      have hTakeSign : takeSign (sign ++ '.' :: (chars' ++ tail)) =
          (negative, '.' :: (chars' ++ tail)) := takeSign_of_sign hSign (by simp)
      have hRead := readDecimal_of_isExponent negative (.inr hSome : [] ≠ [] ∨ _) hExponent
      rw [read, hText, List.cons_append, hTakeSign]
      simp only [takeDigits_point, takeDigits_of_hasDigits hFraction hExponent.head]
      exact hRead

/-- A decimal is read only if there are digits, and nothing but an exponent follows them. -/
theorem exists_exponent_of_readDecimal
    (hRead : readDecimal negative whole fraction tail ≠ .other) :
    (whole ≠ [] ∨ fraction ≠ []) ∧ ∃ exponent, Exponent tail exponent := by
  rw [readDecimal] at hRead
  split_ifs at hRead with hNone
  · exact absurd rfl hRead
  · refine ⟨by simpa [List.isEmpty_iff, or_iff_not_imp_left] using hNone, ?_⟩
    cases hExponent : readExponent tail with
    | none => simp [hExponent] at hRead
    | some exponent => exact ⟨exponent, readExponent_eq_some_iff.mp hExponent⟩

/-- Whatever is read has one of the two forms. -/
theorem exists_form_of_read (hRead : read text ≠ .other) :
    (∃ negative digits, IsInteger text negative digits) ∨
      ∃ negative whole fraction exponent, IsDecimal text negative whole fraction exponent := by
  obtain ⟨sign, negative, unsigned, hTakeSign, hSign, hText⟩ := exists_takeSign text.toList
  obtain ⟨chars, whole, tail, hTakeDigits, hWhole, rfl⟩ := exists_takeDigits unsigned
  rw [read, hTakeSign] at hRead
  simp only [hTakeDigits] at hRead
  cases tail with
  | nil =>
      rw [List.append_nil] at hText
      cases whole with
      | nil => simp at hRead
      | cons digit whole =>
          exact .inl ⟨negative, _, sign, chars, hSign, hWhole, List.cons_ne_nil _ _, hText⟩
  | cons c rest =>
      right
      by_cases hPoint : c = '.'
      · subst hPoint
        obtain ⟨chars', fraction, tail, hTakeFraction, hFraction, rfl⟩ := exists_takeDigits rest
        have hDecimal : readDecimal negative whole fraction tail ≠ .other := by
          cases whole with
          | nil => simpa [hTakeFraction] using hRead
          | cons digit whole => simpa [hTakeFraction] using hRead
        obtain ⟨hSome, exponent, hExponent⟩ := exists_exponent_of_readDecimal hDecimal
        by_cases hBare : whole = []
        · subst hBare
          cases hWhole
          have hSome' : fraction ≠ [] := by simpa using hSome
          exact ⟨negative, [], fraction, exponent, sign, _, tail, hSign,
            .fraction hFraction hSome', hExponent, by simpa using hText⟩
        · exact ⟨negative, whole, fraction, exponent, sign, _, tail, hSign,
            .pointed hWhole hBare hFraction, hExponent, by simpa using hText⟩
      · cases whole with
        | nil => simp [hPoint] at hRead
        | cons first whole =>
            have hDecimal : readDecimal negative (first :: whole) [] (c :: rest) ≠ .other := by
              simpa [hPoint] using hRead
            obtain ⟨-, exponent, hExponent⟩ := exists_exponent_of_readDecimal hDecimal
            exact ⟨negative, first :: whole, [], exponent, sign, _, c :: rest, hSign,
              .whole hWhole (List.cons_ne_nil _ _), hExponent, hText⟩

/-- What a text is read as, by its form. -/
theorem read_cases (text : String) :
    (∃ negative digits, IsInteger text negative digits ∧ digits.length ≤ digitLimit ∧
      read text = .number (.integer (signed negative (placeValue digits)))) ∨
    (∃ negative digits, IsInteger text negative digits ∧ digitLimit < digits.length ∧
      read text = .tooLong) ∨
    ((¬ ∃ negative digits, IsInteger text negative digits) ∧
      ∃ negative whole fraction exponent, IsDecimal text negative whole fraction exponent ∧
        read text = .number (.real (decimal negative whole fraction exponent).toBinary64)) ∨
    (¬ ∃ negative digits, IsInteger text negative digits) ∧
      (¬ ∃ negative whole fraction exponent, IsDecimal text negative whole fraction exponent) ∧
      read text = .other := by
  by_cases hInteger : ∃ negative digits, IsInteger text negative digits
  · obtain ⟨negative, digits, hInteger⟩ := hInteger
    rcases Nat.lt_or_ge digitLimit digits.length with hLong | hShort
    · exact .inr (.inl ⟨negative, digits, hInteger, hLong, read_of_isInteger_of_lt hInteger hLong⟩)
    · exact .inl ⟨negative, digits, hInteger, hShort, read_of_isInteger_of_le hInteger hShort⟩
  · have hOther (negative digits) : ¬ IsInteger text negative digits := fun hForm =>
      hInteger ⟨negative, digits, hForm⟩
    by_cases hDecimal : ∃ negative whole fraction exponent,
        IsDecimal text negative whole fraction exponent
    · obtain ⟨negative, whole, fraction, exponent, hDecimal⟩ := hDecimal
      exact .inr (.inr (.inl ⟨hInteger, negative, whole, fraction, exponent, hDecimal,
        read_of_isDecimal hDecimal hOther⟩))
    · refine .inr (.inr (.inr ⟨hInteger, hDecimal, ?_⟩))
      by_contra hRead
      exact (exists_form_of_read hRead).elim hInteger hDecimal

theorem read_eq_integer_iff {n : Int} : read text = .number (.integer n) ↔
    ∃ negative digits, IsInteger text negative digits ∧ digits.length ≤ digitLimit ∧
      n = signed negative (placeValue digits) := by
  constructor
  · intro hRead
    rcases read_cases text with ⟨negative, digits, hInteger, hShort, hCase⟩ | ⟨_, _, _, _, hCase⟩ |
      ⟨_, _, _, _, _, _, hCase⟩ | ⟨_, _, hCase⟩
    · rw [hCase] at hRead
      exact ⟨negative, digits, hInteger, hShort, by simpa using hRead.symm⟩
    · simp [hCase] at hRead
    · simp [hCase] at hRead
    · simp [hCase] at hRead
  · rintro ⟨negative, digits, hInteger, hShort, rfl⟩
    exact read_of_isInteger_of_le hInteger hShort

/-- The datum that is read is the only one nearest to the decimal. -/
theorem read_eq_real_iff {x : Binary64} : read text = .number (.real x) ↔
    (¬ ∃ negative digits, IsInteger text negative digits) ∧
      ∃ negative whole fraction exponent, IsDecimal text negative whole fraction exponent ∧
        Binary64.IsNearest negative (decimalValue whole fraction exponent) x := by
  have hNearest (negative whole fraction exponent) :
      Binary64.IsNearest negative (decimalValue whole fraction exponent)
        (decimal negative whole fraction exponent).toBinary64 := by
    rw [← magnitude_decimal negative]
    exact (decimal negative whole fraction exponent).isNearest_toBinary64
  constructor
  · intro hRead
    rcases read_cases text with ⟨_, _, _, _, hCase⟩ | ⟨_, _, _, _, hCase⟩ |
      ⟨hOther, negative, whole, fraction, exponent, hDecimal, hCase⟩ | ⟨_, _, hCase⟩
    · simp [hCase] at hRead
    · simp [hCase] at hRead
    · obtain rfl : (decimal negative whole fraction exponent).toBinary64 = x := by
        simpa [hCase] using hRead
      exact ⟨hOther, negative, whole, fraction, exponent, hDecimal, hNearest ..⟩
    · simp [hCase] at hRead
  · rintro ⟨hOther, negative, whole, fraction, exponent, hDecimal, hx⟩
    rw [read_of_isDecimal hDecimal fun negative digits hForm => hOther ⟨negative, digits, hForm⟩,
      hx.unique (hNearest ..)]

theorem exists_sign_iff : (∃ negative, Sign sign negative) ↔ sign ∈ [[], ['+'], ['-']] := by
  simp only [List.mem_cons, List.not_mem_nil, or_false]
  constructor
  · rintro ⟨negative, hSign⟩
    cases hSign <;> simp
  · rintro (rfl | rfl | rfl)
    · exact ⟨_, .none⟩
    · exact ⟨_, .plus⟩
    · exact ⟨_, .minus⟩

/-- The integers beyond the limit are those that are overlong. -/
theorem isOverlong_iff : IsOverlong text ↔
    ∃ negative digits, IsInteger text negative digits ∧ digitLimit < digits.length := by
  constructor
  · rintro ⟨sign, chars, hText, hSign, hChars, hLong⟩
    obtain ⟨negative, hSign⟩ := exists_sign_iff.mpr hSign
    obtain ⟨digits, hDigits⟩ := areDigits_iff.mp hChars
    rw [hDigits.length_eq] at hLong
    have hSome : digits ≠ [] := List.ne_nil_of_length_pos (Nat.zero_lt_of_lt hLong)
    exact ⟨negative, digits, ⟨sign, chars, hSign, hDigits, hSome, hText⟩, hLong⟩
  · rintro ⟨negative, digits, ⟨sign, chars, hSign, hDigits, -, hText⟩, hLong⟩
    exact ⟨sign, chars, hText, exists_sign_iff.mp ⟨negative, hSign⟩,
      areDigits_iff.mpr ⟨digits, hDigits⟩, hDigits.length_eq ▸ hLong⟩

theorem read_eq_other_iff : read text = .other ↔
    (¬ ∃ negative digits, IsInteger text negative digits) ∧
      ¬ ∃ negative whole fraction exponent, IsDecimal text negative whole fraction exponent := by
  constructor
  · intro hRead
    rcases read_cases text with ⟨_, _, _, _, hCase⟩ | ⟨_, _, _, _, hCase⟩ |
      ⟨_, _, _, _, _, _, hCase⟩ | ⟨hInteger, hDecimal, _⟩
    · simp [hCase] at hRead
    · simp [hCase] at hRead
    · simp [hCase] at hRead
    · exact ⟨hInteger, hDecimal⟩
  · rintro ⟨hInteger, hDecimal⟩
    by_contra hRead
    exact (exists_form_of_read hRead).elim hInteger hDecimal

/-- A text is read as an integer exactly if it is an optional sign and digits within the limit, as
the datum nearest to a decimal exactly if it has the form of one and not that of an integer, and
as too long exactly if it is an integer beyond the limit. Nothing else is read. -/
theorem read_grammar (text : String) :
    (∀ n, read text = .number (.integer n) ↔ ∃ negative digits, IsInteger text negative digits ∧
      digits.length ≤ digitLimit ∧ n = signed negative (placeValue digits)) ∧
    (∀ x, read text = .number (.real x) ↔ (¬ ∃ negative digits, IsInteger text negative digits) ∧
      ∃ negative whole fraction exponent, IsDecimal text negative whole fraction exponent ∧
        Binary64.IsNearest negative (decimalValue whole fraction exponent) x) ∧
    (read text = .tooLong ↔ ∃ negative digits, IsInteger text negative digits ∧
      digitLimit < digits.length) ∧
    (read text = .other ↔ (¬ ∃ negative digits, IsInteger text negative digits) ∧
      ¬ ∃ negative whole fraction exponent, IsDecimal text negative whole fraction exponent) :=
  ⟨fun _ => read_eq_integer_iff, fun _ => read_eq_real_iff,
    read_eq_tooLong_iff_isOverlong.trans isOverlong_iff, read_eq_other_iff⟩

/-- Signs and digits are all there is in an integer. -/
theorem IsInteger.mem (hInteger : IsInteger text negative digits) (hc : c ∈ text.toList) :
    c = '+' ∨ c = '-' ∨ ∃ value, IsDigit c value := by
  obtain ⟨sign, chars, hSign, hDigits, -, hText⟩ := hInteger
  rw [hText, List.mem_append] at hc
  rcases hc with hc | hc
  · cases hSign with
    | none => exact absurd hc List.not_mem_nil
    | plus => exact .inl (List.mem_singleton.mp hc)
    | minus => exact .inr (.inl (List.mem_singleton.mp hc))
  · exact .inr (.inr (Text.isDigit_iff.mp (areDigits_iff.mpr ⟨digits, hDigits⟩ c hc)))

/-- An integer with one digit of each script, a decimal with digits of three scripts, and an integer
with one digit more than the limit. A superscript is no decimal digit, and a point or an exponent
alone is no literal. -/
theorem read_grammar_scripts :
    let codes : List Nat :=
      [0x31, 0x662, 0x6F3, 0x7C4, 0x96B, 0x9EC, 0xA6D, 0xAEE, 0xB6F, 0xBE6, 0xC67, 0xCE8, 0xD69,
        0xDEA, 0xE55, 0xED6, 0xF27, 0x1048, 0x1099, 0x17E0, 0x1811, 0x1948, 0x19D3, 0x1A84, 0x1A95,
        0x1B56, 0x1BB7, 0x1C48, 0x1C59, 0xA620, 0xA8D1, 0xA902, 0xA9D3, 0xA9F4, 0xAA55, 0xABF6,
        0xFF17, 0x104A8, 0x10D39, 0x11066, 0x110F1, 0x11138, 0x111D3, 0x112F4, 0x11455, 0x114D6,
        0x11657, 0x116C8, 0x11739, 0x118E0, 0x11951, 0x11C52, 0x11D53, 0x11DA4, 0x16A65, 0x16AC6,
        0x16B57, 0x1D7D6, 0x1D7E1, 0x1D7E2, 0x1D7ED, 0x1D7F8, 0x1E143, 0x1E2F4, 0x1E955, 0x1FBF6]
    read (String.ofList ('-' :: codes.map Char.ofNat)) = .number (.integer
        (-123456789012345678901234567890123456789012345678901234567890123456)) ∧
      read "٣.५e-１" = .number (.real (Decimal.toBinary64 ⟨false, 35, -2⟩)) ∧
      read (String.ofList ('+' :: List.replicate 4301 '٣')) = .tooLong ∧
      ∀ text ∈ ["²", ".", "+", "1e", "e5", "1 2", ""], read text = .other ∧
        ¬ ∃ negative digits, IsInteger text negative digits := by
  intro codes
  refine ⟨?_, ?_, ?_, fun text hText => ?_⟩
  · have hDigits : HasDigits (codes.map Char.ofNat)
        ((List.range 66).map fun place => (place + 1) % 10) := by
      decide +kernel
    refine ((read_grammar _).1 _).mpr ⟨true, _, ⟨['-'], _, .minus, hDigits, by decide, ?_⟩, ?_, ?_⟩
    · exact String.toList_ofList
    · decide
    · decide +kernel
  · have hWhole : HasDigits ['٣'] [3] := by decide +kernel
    have hFraction : HasDigits ['५'] [5] := by decide +kernel
    have hDecimal : IsDecimal "٣.५e-１" false [3] [5] (-1) :=
      ⟨[], _, _, .none, .pointed hWhole (by decide) hFraction,
        .some (.inl rfl) .minus (by decide +kernel : HasDigits ['１'] [1]) (by decide), rfl⟩
    refine ((read_grammar _).2.1 _).mpr ⟨?_, false, [3], [5], -1, hDecimal, ?_⟩
    · rintro ⟨negative, digits, hInteger⟩
      have hPoint := hInteger.mem (c := '.') (by decide)
      rw [← Text.isDigit_iff] at hPoint
      revert hPoint
      decide
    · rw [← magnitude_decimal false]
      exact (decimal false [3] [5] (-1)).isNearest_toBinary64
  · have hDigits : HasDigits (List.replicate 4301 '٣') (List.replicate 4301 3) := by
      rw [← List.map_replicate (f := fun _ => '٣') (a := 3), HasDigits, List.forall₂_map_left_iff,
        List.forall₂_same]
      intro digit hDigit
      rw [List.eq_of_mem_replicate hDigit]
      decide +kernel
    refine (read_grammar _).2.2.1.mpr ⟨false, _, ⟨['+'], _, .plus, hDigits, ?_, ?_⟩, ?_⟩
    · exact List.replicate_succ_ne_nil
    · exact String.toList_ofList
    · rw [List.length_replicate]
      decide
  · have hOther : read text = .other := by
      revert text
      decide +kernel
    exact ⟨hOther, ((read_grammar text).2.2.2.mp hOther).1⟩

end Formulas.Numeral

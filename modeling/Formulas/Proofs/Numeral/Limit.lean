import Formulas.Proofs.Constant.Text
import Formulas.Proofs.Token.Run

/-! The digit limit. The literals that have no value are the integers with more digits than the
limit admits, in whatever scripts and however many of them are zeros in front. -/
namespace Formulas

namespace Numeral

/-- Characters that are digits, each of any script. -/
def AreDigits (chars : List Char) : Prop :=
  ∀ c ∈ chars, Text.isDigit c = true

/-- An optional sign and digits, more of them than the limit admits. -/
def IsOverlong (text : String) : Prop :=
  ∃ sign digits, text.toList = sign ++ digits ∧ sign ∈ [[], ['+'], ['-']] ∧
    AreDigits digits ∧ digitLimit < digits.length

variable {chars digits sign : List Char} {text : String}

/-- Nothing is left behind the leading digits of a text of digits. -/
theorem takeDigits_snd_eq_nil_iff : (takeDigits chars).2 = [] ↔ AreDigits chars := by
  induction chars with
  | nil => simp [takeDigits, AreDigits]
  | cons c rest ih =>
      rw [takeDigits]
      cases hDigit : Text.digitValue? c with
      | none => simp [AreDigits, Text.isDigit, hDigit]
      | some digit => simpa [AreDigits, Text.isDigit, hDigit] using ih

theorem length_takeDigits (hDigits : AreDigits chars) :
    (takeDigits chars).1.length = chars.length := by
  obtain ⟨front, hChars, hLength, -⟩ := takeDigits_spec chars
  rw [takeDigits_snd_eq_nil_iff.mpr hDigits, List.append_nil] at hChars
  rw [← hLength, ← hChars]

/-- A text is an optional sign and what follows it. -/
theorem exists_sign (chars : List Char) :
    ∃ sign ∈ [[], ['+'], ['-']], chars = sign ++ (takeSign chars).2 := by
  unfold takeSign
  split
  · exact ⟨['+'], by simp, rfl⟩
  · exact ⟨['-'], by simp, rfl⟩
  · exact ⟨[], by simp, rfl⟩

/-- Digits do not start with a sign. -/
theorem takeSign_append (hSign : sign ∈ [[], ['+'], ['-']]) (hDigits : AreDigits digits) :
    (takeSign (sign ++ digits)).2 = digits := by
  simp only [List.mem_cons, List.not_mem_nil, or_false] at hSign
  rcases hSign with rfl | rfl | rfl
  · cases digits with
    | nil => rfl
    | cons c rest =>
        have hFirst := hDigits c (List.mem_cons_self ..)
        have hPlus : c ≠ '+' := by rintro rfl; exact absurd hFirst (by decide)
        have hMinus : c ≠ '-' := by rintro rfl; exact absurd hFirst (by decide)
        simp [takeSign, hPlus, hMinus]
  · rfl
  · rfl

theorem readDecimal_ne_tooLong (negative : Bool) (whole fraction : List Nat) (rest : List Char) :
    readDecimal negative whole fraction rest ≠ .tooLong := by
  unfold readDecimal
  split_ifs
  · exact Reading.noConfusion
  · split
    · exact Reading.noConfusion
    · exact Reading.noConfusion

theorem readInteger_eq_tooLong_iff {negative : Bool} {values : List Nat} :
    readInteger negative values = .tooLong ↔ digitLimit < values.length := by
  simp [readInteger]

/-- A literal is too long when nothing but digits follows its sign, and too many of them. -/
theorem read_eq_tooLong_iff : read text = .tooLong ↔
    (takeDigits (takeSign text.toList).2).2 = [] ∧
      digitLimit < (takeDigits (takeSign text.toList).2).1.length := by
  simp only [read]
  generalize takeDigits (takeSign text.toList).2 = taken
  obtain ⟨whole, tail⟩ := taken
  have hDecimal := readDecimal_ne_tooLong (takeSign text.toList).1
  cases tail with
  | nil =>
      cases whole with
      | nil => simp [digitLimit]
      | cons digit whole => simp [readInteger_eq_tooLong_iff]
  | cons c rest =>
      by_cases hPoint : c = '.'
      · subst hPoint
        cases whole <;> simp [hDecimal]
      · cases whole <;> simp [hPoint, hDecimal]

theorem read_eq_tooLong_iff_isOverlong : read text = .tooLong ↔ IsOverlong text := by
  rw [read_eq_tooLong_iff]
  constructor
  · rintro ⟨hNoMore, hLong⟩
    obtain ⟨sign, hSign, hText⟩ := exists_sign text.toList
    have hDigits := takeDigits_snd_eq_nil_iff.mp hNoMore
    rw [length_takeDigits hDigits] at hLong
    exact ⟨sign, _, hText, hSign, hDigits, hLong⟩
  · rintro ⟨sign, digits, hText, hSign, hDigits, hLong⟩
    rw [hText, takeSign_append hSign hDigits]
    exact ⟨takeDigits_snd_eq_nil_iff.mpr hDigits, by rwa [length_takeDigits hDigits]⟩

/-- An overlong integer is one run of characters. -/
theorem IsOverlong.isRun (hLong : IsOverlong text) : Token.IsRun text.toList :=
  isRun_of_read (by simp [read_eq_tooLong_iff_isOverlong.mpr hLong])

/-- So many ones are an overlong integer. -/
theorem isOverlong_replicate {count : Nat} (hCount : digitLimit < count) :
    IsOverlong (String.ofList (List.replicate count '1')) := by
  refine ⟨[], List.replicate count '1', String.toList_ofList, by simp, ?_, by simpa using hCount⟩
  intro c hc
  rw [List.eq_of_mem_replicate hc]
  decide

end Numeral

namespace Token

/-- What comes out oversized is an overlong integer, whatever else a piece could stand for. -/
theorem ofText_eq_oversized_iff {piece : String} :
    ofText piece = .oversized ↔ Numeral.IsOverlong piece := by
  rw [← Numeral.read_eq_tooLong_iff_isOverlong]
  constructor
  · intro hPiece
    rcases ofText_cases piece with ⟨op, rfl⟩ | ⟨which, rfl⟩ | rfl | rfl | hLiteral
    · simp at hPiece
    · simp at hPiece
    · simp at hPiece
    · simp at hPiece
    · rw [hLiteral, ofLiteral] at hPiece
      cases hRead : Numeral.read piece with
      | number value => simp [hRead] at hPiece
      | tooLong => rfl
      | other => simp [hRead] at hPiece
  · intro hRead
    rw [ofText_of_read (by simp [hRead]), ofLiteral, hRead]

theorem oversized_mem_scan_iff {text : String} :
    .oversized ∈ scan text ↔ ∃ piece ∈ split text, Numeral.IsOverlong piece := by
  simp only [scan, List.mem_map, ofText_eq_oversized_iff]

end Token

end Formulas

import Formulas.Token
import Mathlib.Tactic.Common

/-! Runs of characters between brackets and blanks. A run stays whole wherever no run
goes on behind it, and every number literal is one. -/
namespace Formulas

/-- No blank is a digit, and no bracket is one. -/
theorem Text.isRunChar_of_isDigit {c : Char} (hDigit : isDigit c = true) :
    Token.isRunChar c = true := by
  have hApart : ∀ start ∈ zeroDigits, 41 < start ∧
      ∀ range ∈ blankRanges, start + 9 < range.1 ∨ range.2 < start := by
    decide
  obtain ⟨value, hValue⟩ := Option.isSome_iff_exists.mp hDigit
  obtain ⟨start, hFound, -⟩ := Option.map_eq_some_iff.mp hValue
  obtain ⟨hAbove, hBlanks⟩ := hApart start (List.mem_of_find?_eq_some hFound)
  have hRange : start ≤ c.toNat ∧ c.toNat < start + 10 := by
    simpa using List.find?_some hFound
  have hBracket : Token.isBracket c = false := by
    have hOpener : c ≠ '(' := by
      rintro rfl
      have hLow : start ≤ 40 := hRange.1
      omega
    have hCloser : c ≠ ')' := by
      rintro rfl
      have hLow : start ≤ 41 := hRange.1
      omega
    simp [Token.isBracket, hOpener, hCloser]
  have hBlank : isBlank c = false := by
    rw [isBlank, List.any_eq_false]
    intro range hRangeMem
    have hSide := hBlanks range hRangeMem
    simp only [decide_eq_true_eq]
    omega
  simp [Token.isRunChar, hBracket, hBlank]

namespace Token

/-- One or more characters that are neither brackets nor blank. -/
def IsRun (chars : List Char) : Prop :=
  chars ≠ [] ∧ ∀ c ∈ chars, isRunChar c = true

instance (chars : List Char) : Decidable (IsRun chars) :=
  decidable_of_iff (chars ≠ [] ∧ chars.all isRunChar = true) (by simp [IsRun])

theorem pieces_run_append {run rest : List Char} (hRun : IsRun run)
    (hRest : startsRun rest = false) : pieces (run ++ rest) = run :: pieces rest := by
  obtain ⟨hSome, hChars⟩ := hRun
  induction run with
  | nil => exact absurd rfl hSome
  | cons c run ih =>
      have hChar := hChars c (List.mem_cons_self ..)
      simp only [isRunChar, Bool.decide_and, Bool.and_eq_true, decide_eq_true_eq] at hChar
      obtain ⟨hBracket, hBlank⟩ := hChar
      rw [List.cons_append, pieces, if_neg hBlank, if_neg hBracket]
      cases run with
      | nil =>
          rw [List.nil_append, hRest]
      | cons d run =>
          have hLater := ih (List.cons_ne_nil d run)
            fun e he => hChars e (List.mem_cons_of_mem c he)
          have hStarts : startsRun (d :: run ++ rest) = true :=
            hChars d (List.mem_cons_of_mem c (List.mem_cons_self ..))
          rw [hStarts, hLater]

theorem pieces_blank (rest : List Char) : pieces (' ' :: rest) = pieces rest := by
  rw [pieces, if_pos (by decide)]

theorem pieces_opener (rest : List Char) : pieces ('(' :: rest) = ['('] :: pieces rest := by
  rw [pieces, if_neg (by decide), if_pos (by decide)]

theorem pieces_closer (rest : List Char) : pieces (')' :: rest) = [')'] :: pieces rest := by
  rw [pieces, if_neg (by decide), if_pos (by decide)]

end Token

namespace Numeral

open Token (isRunChar IsRun)

/-- The digits taken from a text and what follows them make up the text. -/
theorem takeDigits_spec (chars : List Char) : ∃ front : List Char,
    chars = front ++ (takeDigits chars).2 ∧ front.length = (takeDigits chars).1.length ∧
      ∀ c ∈ front, isRunChar c = true := by
  induction chars with
  | nil => exact ⟨[], rfl, rfl, by simp⟩
  | cons c rest ih =>
      rw [takeDigits]
      cases hDigit : Text.digitValue? c with
      | none => exact ⟨[], rfl, rfl, by simp⟩
      | some digit =>
          obtain ⟨front, hRest, hLength, hFront⟩ := ih
          have hChar := Text.isRunChar_of_isDigit (c := c) (by simp [Text.isDigit, hDigit])
          refine ⟨c :: front, ?_, by simp [hLength], ?_⟩
          · rw [List.cons_append, ← hRest]
          · simpa using ⟨hChar, hFront⟩

/-- All characters are run characters when those behind the leading digits are. -/
theorem isRunChar_of_takeDigits {chars : List Char}
    (hRest : ∀ c ∈ (takeDigits chars).2, isRunChar c = true) : ∀ c ∈ chars, isRunChar c = true := by
  obtain ⟨front, hChars, -, hFront⟩ := takeDigits_spec chars
  intro c hc
  rw [hChars] at hc
  rcases List.mem_append.mp hc with hc | hc
  · exact hFront c hc
  · exact hRest c hc

theorem isRunChar_of_takeSign {chars : List Char}
    (hRest : ∀ c ∈ (takeSign chars).2, isRunChar c = true) : ∀ c ∈ chars, isRunChar c = true := by
  intro c hc
  unfold takeSign at hRest
  split at hRest
  · rcases List.mem_cons.mp hc with rfl | hc
    · decide
    · exact hRest c hc
  · rcases List.mem_cons.mp hc with rfl | hc
    · decide
    · exact hRest c hc
  · exact hRest c hc

theorem isRunChar_of_readExponent {chars : List Char} {exponent : Int}
    (hRead : readExponent chars = some exponent) : ∀ c ∈ chars, isRunChar c = true := by
  cases chars with
  | nil => simp
  | cons mark rest =>
      rw [readExponent] at hRead
      split_ifs at hRead with hMark
      have hFirst : isRunChar mark = true := by
        rcases hMark with rfl | rfl <;> decide
      have hLater : ∀ c ∈ rest, isRunChar c = true := by
        apply isRunChar_of_takeSign
        apply isRunChar_of_takeDigits
        cases hDigits : takeDigits (takeSign rest).2 with
        | mk digits tail =>
            cases tail with
            | nil => simp
            | cons c tail => cases digits <;> simp [hDigits] at hRead
      simpa using ⟨hFirst, hLater⟩

theorem isRunChar_of_readDecimal {negative : Bool} {whole fraction : List Nat}
    {chars : List Char} (hRead : readDecimal negative whole fraction chars ≠ .other) :
    ∀ c ∈ chars, isRunChar c = true := by
  rw [readDecimal] at hRead
  split_ifs at hRead with hDigits
  · exact absurd rfl hRead
  · cases hExponent : readExponent chars with
    | some exponent => exact isRunChar_of_readExponent hExponent
    | none => simp [hExponent] at hRead

/-- A text that is read as a literal is a run. -/
theorem isRun_of_read {text : String} (hRead : read text ≠ .other) : IsRun text.toList := by
  have hSome : text.toList ≠ [] := by
    intro hEmpty
    simp [read, hEmpty, takeSign, takeDigits] at hRead
  refine ⟨hSome, isRunChar_of_takeSign (isRunChar_of_takeDigits ?_)⟩
  have hPointed (rest : List Char) (hRest : ∀ c ∈ (takeDigits rest).2, isRunChar c = true) :
      ∀ c ∈ '.' :: rest, isRunChar c = true := by
    have hPoint : isRunChar '.' = true := by decide
    simpa using ⟨hPoint, isRunChar_of_takeDigits hRest⟩
  simp only [read] at hRead
  generalize takeDigits (takeSign text.toList).2 = taken at hRead ⊢
  obtain ⟨whole, tail⟩ := taken
  cases tail with
  | nil => simp
  | cons c rest =>
      by_cases hPoint : c = '.'
      · subst hPoint
        cases whole with
        | nil => exact hPointed rest (isRunChar_of_readDecimal hRead)
        | cons digit whole => exact hPointed rest (isRunChar_of_readDecimal hRead)
      · cases whole with
        | nil => simp [hPoint] at hRead
        | cons digit whole => exact isRunChar_of_readDecimal (by simpa [hPoint] using hRead)

end Numeral

end Formulas

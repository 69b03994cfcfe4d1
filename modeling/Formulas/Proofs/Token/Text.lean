import Formulas.Token
import Mathlib.Tactic.Common

/-! What single pieces of text stand for, and pieces with the two brackets exchanged. -/
namespace Formulas.Token

@[simp] theorem ofText_symbol (op : Operation) : ofText op.symbol = .operation op := by
  rw [ofText, Operation.ofSymbol?_symbol]

@[simp] theorem ofText_name (which : Coordinate) : ofText which.name = .coordinate which := by
  cases which <;> decide

@[simp] theorem ofText_opener : ofText "(" = .opener := by
  decide

@[simp] theorem ofText_closer : ofText ")" = .closer := by
  decide

/-- A piece is a symbol, a coordinate or a bracket, or it is read as a literal. -/
theorem ofText_cases (piece : String) :
    (∃ op : Operation, piece = op.symbol) ∨ (∃ which : Coordinate, piece = which.name) ∨
      piece = "(" ∨ piece = ")" ∨ ofText piece = ofLiteral piece := by
  cases hOperation : Operation.ofSymbol? piece with
  | some op =>
      left
      have hSymbol : op.symbol = piece := by simpa using List.find?_some hOperation
      exact ⟨op, hSymbol.symm⟩
  | none =>
      right
      cases hCoordinate : Coordinate.ofName? piece with
      | some which =>
          left
          have hName : which.name = piece := by simpa using List.find?_some hCoordinate
          exact ⟨which, hName.symm⟩
      | none =>
          right
          by_cases hOpener : piece = "("
          · exact Or.inl hOpener
          by_cases hCloser : piece = ")"
          · exact Or.inr (Or.inl hCloser)
          · right
            right
            simp only [ofText, hOperation, hCoordinate, if_neg hOpener, if_neg hCloser]

/-- A literal is never a bracket, an operation or a coordinate. -/
theorem ofLiteral_cases (text : String) :
    (∃ value, ofLiteral text = .number value) ∨ ofLiteral text = .oversized ∨
      ofLiteral text = .unknown text := by
  unfold ofLiteral
  cases Numeral.read text with
  | number value => exact Or.inl ⟨value, rfl⟩
  | tooLong => exact Or.inr (Or.inl rfl)
  | other => exact Or.inr (Or.inr rfl)

/-- The text is the symbol of an operation, a coordinate, a bracket or a number literal. -/
def IsWord (text : String) : Prop :=
  (∃ op : Operation, text = op.symbol) ∨ (∃ which : Coordinate, text = which.name) ∨
    text = "(" ∨ text = ")" ∨ Numeral.read text ≠ .other

/-- Only what is no word is unknown. -/
theorem ofText_eq_unknown_iff {piece text : String} :
    ofText piece = .unknown text ↔ piece = text ∧ ¬ IsWord text := by
  constructor
  · intro hUnknown
    obtain ⟨rfl, hOther⟩ : piece = text ∧ Numeral.read piece = .other := by
      rcases ofText_cases piece with ⟨op, rfl⟩ | ⟨which, rfl⟩ | rfl | rfl | hLiteral
      · simp at hUnknown
      · simp at hUnknown
      · simp at hUnknown
      · simp at hUnknown
      · rw [hLiteral, ofLiteral] at hUnknown
        cases hRead : Numeral.read piece <;> simp_all
    refine ⟨rfl, ?_⟩
    rintro (⟨op, rfl⟩ | ⟨which, rfl⟩ | rfl | rfl | hNumber)
    · simp at hUnknown
    · simp at hUnknown
    · simp at hUnknown
    · simp at hUnknown
    · exact hNumber hOther
  · rintro ⟨rfl, hNoWord⟩
    rcases ofText_cases piece with hSymbol | hName | hOpener | hCloser | hLiteral
    · exact absurd (.inl hSymbol) hNoWord
    · exact absurd (.inr (.inl hName)) hNoWord
    · exact absurd (.inr (.inr (.inl hOpener))) hNoWord
    · exact absurd (.inr (.inr (.inr (.inl hCloser)))) hNoWord
    · have hOther : Numeral.read piece = .other := by
        by_contra hNumber
        exact hNoWord (.inr (.inr (.inr (.inr hNumber))))
      rw [hLiteral, ofLiteral, hOther]

theorem ofText_eq_operation_iff {piece : String} {op : Operation} :
    ofText piece = .operation op ↔ piece = op.symbol := by
  constructor
  · intro hOperation
    rcases ofText_cases piece with ⟨other, rfl⟩ | ⟨which, rfl⟩ | rfl | rfl | hLiteral
    · rw [ofText_symbol] at hOperation
      exact congrArg Operation.symbol (Token.operation.inj hOperation)
    · simp at hOperation
    · simp at hOperation
    · simp at hOperation
    · rw [hLiteral] at hOperation
      rcases ofLiteral_cases piece with ⟨value, hRead⟩ | hRead | hRead <;> simp_all
  · rintro rfl
    exact ofText_symbol op

/-- The other bracket as a piece of text; every other piece stays. -/
def flipText (piece : String) : String :=
  if piece = "(" then ")" else if piece = ")" then "(" else piece

/-- Pieces of text from back to front, with the two brackets exchanged. -/
def backwardTexts (pieces : List String) : List String :=
  pieces.reverse.map flipText

/-- Only the two brackets are read as brackets. -/
theorem ofText_flipText (piece : String) : ofText (flipText piece) = (ofText piece).flip := by
  by_cases hOpener : piece = "("
  · rw [hOpener, ofText_opener]
    exact ofText_closer
  by_cases hCloser : piece = ")"
  · rw [hCloser, ofText_closer]
    exact ofText_opener
  rw [flipText, if_neg hOpener, if_neg hCloser]
  rcases ofText_cases piece with ⟨op, rfl⟩ | ⟨which, rfl⟩ | hBracket | hBracket | hLiteral
  · rw [ofText_symbol]
    rfl
  · rw [ofText_name]
    rfl
  · exact absurd hBracket hOpener
  · exact absurd hBracket hCloser
  · rw [hLiteral]
    rcases ofLiteral_cases piece with ⟨value, hRead⟩ | hRead | hRead
    all_goals
      rw [hRead]
      rfl

theorem backward_map_ofText (pieces : List String) :
    backward (pieces.map ofText) = (backwardTexts pieces).map ofText := by
  simp [backward, backwardTexts, ofText_flipText, Function.comp_def]

end Formulas.Token

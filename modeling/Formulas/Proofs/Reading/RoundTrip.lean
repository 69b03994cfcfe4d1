import Formulas.Proofs.Reading.Grammar
import Formulas.Proofs.Reading.PhraseReading
import Formulas.Proofs.Reading.Strictness

/-! Formulas that were written are read back. Strict reading accepts the tokens of every
well-formed formula in each form with brackets, hence so does reading that repairs. -/
namespace Formulas

namespace Formula

@[simp] theorem isWellFormed_normal (f : Formula) : f.normal.isWellFormed = f.isWellFormed := by
  induction f with
  | constant value => rfl
  | coordinate which => rfl
  | operation op operands ih =>
      rw [Bool.eq_iff_iff, normal_operation, isWellFormed_operation, isWellFormed_operation,
        List.length_map]
      simp only [List.forall_mem_map]
      apply and_congr_right
      intro _
      apply forall₂_congr
      intro f hf
      rw [ih f hf]

end Formula

namespace Reading

/-- Operators between their operands and all other operations before them are one way of
mixing forms. -/
theorem mixed_tokens {f : Formula} (hWellFormed : f.isWellFormed = true) :
    Phrase.Mixed f (f.tokens .infixed) := by
  induction f with
  | constant value => exact .leaf rfl
  | coordinate which => exact .leaf rfl
  | operation op operands ih =>
      obtain ⟨-, hOperands⟩ := Formula.isWellFormed_operation.mp hWellFormed
      have hParts : List.Forall₂ Phrase.Mixed operands (operands.map (Formula.tokens .infixed)) :=
        List.forall₂_map_right_iff.mpr
          (List.forall₂_same.mpr fun f hf => ih f hf (hOperands f hf))
      rw [Formula.tokens_operation]
      by_cases hBetween : op.isOperator = true ∧ operands.length = 2
      · obtain ⟨hOperator, hTwo⟩ := hBetween
        obtain ⟨left, right, rfl⟩ := List.length_eq_two.mp hTwo
        have hArity : op.arity = .exactly 2 := by
          cases op <;> first | rfl | simp [Operation.isOperator] at hOperator
        obtain ⟨hLeft, hRight⟩ := List.forall₂_cons.mp hParts
        obtain ⟨hRight, -⟩ := List.forall₂_cons.mp hRight
        simpa [Formula.operationSymbols, hOperator, Alphabet.tokens] using
          Phrase.Mixed.bracket (.between hArity hLeft hRight)
      · rw [Formula.operationSymbols_call _ (by simpa using hBetween)]
        exact .bracket (.before hParts)

/-- Strict reading accepts the tokens of a well-formed formula and comes to the formula. -/
theorem strict_read_tokens {f : Formula} {form : Notation} (hForm : form ≠ .plain)
    (hWellFormed : f.isWellFormed = true) :
    (read ⟨form, true⟩ (f.tokens form)).result = .ok [f] := by
  cases form with
  | plain => exact absurd rfl hForm
  | infixed =>
      have hBody : Phrase.Body true (f.tokens .infixed) f :=
        (mixed_tokens hWellFormed).body hWellFormed
      exact congrArg Outcome.result (Phrase.read_of_body rfl hBody)
  | prefixed => exact strict_read_bracketed rfl hWellFormed
  | postfixed => exact strict_read_bracketed rfl hWellFormed

/-- The tokens of a well-formed formula are read to the formula. -/
theorem read_tokens {f : Formula} {form : Notation} (hForm : form ≠ .plain) (strict : Bool)
    (hWellFormed : f.isWellFormed = true) :
    (read ⟨form, strict⟩ (f.tokens form)).result = .ok [f] := by
  cases strict with
  | true => exact strict_read_tokens hForm hWellFormed
  | false => exact result_read_lenient (strict_read_tokens hForm hWellFormed)

/-- The text of a well-formed formula with readable constants is read as the normal form of
the formula. -/
theorem root?_readText_render {f : Formula} {form : Notation} (hForm : form ≠ .plain)
    (strict : Bool) (hWellFormed : f.isWellFormed = true) (hReadable : f.isReadable = true) :
    (readText ⟨form, strict⟩ (f.render form)).root? = .ok (some f.normal) := by
  have hNormal : f.normal.isWellFormed = true := by rwa [Formula.isWellFormed_normal]
  rw [readText, Formula.scan_render form hReadable, Outcome.root?, read_tokens hForm strict hNormal]
  rfl

/-- A well-formed formula with readable constants is read back from its text in every form
with brackets, strictly or not, up to the kinds of constants of the same value, and the
formula that is read has the same text again. -/
theorem readText_render {f : Formula} {form : Notation} (hForm : form ≠ .plain) (strict : Bool)
    (hWellFormed : f.isWellFormed = true) (hReadable : f.isReadable = true) :
    ∃ g, (readText ⟨form, strict⟩ (f.render form)).root? = .ok (some g) ∧
      f.agrees g = true ∧ g.render form = f.render form := by
  have hNormal : f.normal.isWellFormed = true := by rwa [Formula.isWellFormed_normal]
  have hRead := read_tokens hForm strict hNormal
  refine ⟨f.normal, ?_, by simp [Formula.agrees], Formula.render_normal form f⟩
  rw [readText, Formula.scan_render form hReadable, Outcome.root?, hRead]
  rfl

/-- A mean of a difference and a negation. One half is read back as a real. -/
theorem readText_render_mean :
    let half : Constant := .real (.finite false (2 ^ 52) (-53) (by decide))
    let f : Formula := .operation .arithMean
      [.operation .sub [.coordinate .x, .constant half],
        .operation .negate [.constant (.integer 7)]]
    (Notation.prefixed ≠ .plain ∧ f.isWellFormed = true ∧ f.isReadable = true) ∧
      ∃ g, (readText ⟨.prefixed, true⟩ (f.render .prefixed)).root? = .ok (some g) ∧
        f.agrees g = true ∧ g.render .prefixed = f.render .prefixed :=
  ⟨⟨by decide, by decide +kernel, by decide +kernel⟩,
    readText_render (by decide) true (by decide +kernel) (by decide +kernel)⟩

end Reading

end Formulas

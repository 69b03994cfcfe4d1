import Formulas.Proofs.Formula.Evaluation
import Formulas.Proofs.Formula.Shape

/-! Values of well-formed formulas. At a point with all coordinates they can only fail
because a constant is too large. No other formulas have values. -/
namespace Formulas

theorem Coordinate.index_lt (which : Coordinate) : which.index < all.length := by
  cases which <;> decide

namespace Interpretation

variable {α : Type} {i : Interpretation α} {point : List α} {op : Operation}

/-- An operation with an admitted number of operands has a value, or the failure of one of
its operands. -/
theorem evaluate_operation_cases {operands : List Formula}
    (hAdmits : op.admits operands.length = true) :
    (∃ a, i.evaluate point (.operation op operands) = .ok a) ∨
      ∃ f ∈ operands, ∃ failure, i.evaluate point f = .error failure ∧
        i.evaluate point (.operation op operands) = .error failure := by
  rw [evaluate_operation]
  rcases Result.mapM_id_cases (operands.map (i.evaluate point)) with
    ⟨values, hValues, hLength⟩ | ⟨failure, hMem, hFailure⟩
  · left
    rw [hValues]
    rw [List.length_map] at hLength
    exact ⟨_, if_pos (hLength ▸ hAdmits)⟩
  · right
    obtain ⟨f, hf, hOperand⟩ := List.mem_map.mp hMem
    exact ⟨f, hf, failure, hOperand, by rw [hFailure, Result.error_bind]⟩

/-- A well-formed formula has a value wherever it has coordinates, if all of its constants
have values. -/
theorem evaluate_total {f : Formula} (hWellFormed : f.isWellFormed = true)
    (hPoint : Coordinate.all.length ≤ point.length) :
    (∃ a, i.evaluate point f = .ok a) ∨ i.evaluate point f = .error .integerTooLarge := by
  induction f with
  | constant value =>
      have hValue : i.evaluate point (.constant value) = i.constantValue value := rfl
      rw [hValue, constantValue]
      cases i.constant value with
      | some a => exact .inl ⟨a, rfl⟩
      | none => exact .inr rfl
  | coordinate which =>
      have hIndex : which.index < point.length := Nat.lt_of_lt_of_le which.index_lt hPoint
      exact .inl ⟨_, evaluate_coordinate_eq_ok.mpr (List.getElem?_eq_getElem hIndex)⟩
  | operation op operands ih =>
      obtain ⟨hAdmits, hOperands⟩ := Formula.isWellFormed_operation.mp hWellFormed
      rcases evaluate_operation_cases hAdmits with hValue | ⟨f, hf, failure, hOperand, hFailure⟩
      · exact .inl hValue
      · right
        rcases ih f hf (hOperands f hf) with ⟨a, hValue⟩ | hLarge
        · simp [hValue] at hOperand
        · rw [hFailure, ← hOperand, hLarge]

/-- A formula that has a value is well formed. -/
theorem isWellFormed_of_evaluate {f : Formula} {a : α} (hValue : i.evaluate point f = .ok a) :
    f.isWellFormed = true := by
  induction f generalizing a with
  | constant value => rfl
  | coordinate which => rfl
  | operation op operands ih =>
      obtain ⟨hAdmits, values, hValues, -⟩ := evaluate_operation_eq_ok.mp hValue
      refine Formula.isWellFormed_operation.mpr ⟨hAdmits, fun g hg => ?_⟩
      obtain ⟨b, hOperand⟩ := Result.exists_of_forall₂ hValues g hg
      exact ih g hg hOperand

end Interpretation

namespace Formula

/-- In double precision only an integer constant can be too large for a value. -/
theorem value_total {f : Formula} (hWellFormed : f.isWellFormed = true) {point : List Float}
    (hPoint : point.length ≤ Coordinate.all.length) :
    (∃ a, f.value point = .ok a) ∨ f.value point = .error .integerTooLarge := by
  have hFew : ¬ Coordinate.all.length < point.length := Nat.not_lt.mpr hPoint
  simp only [value, if_neg hFew]
  apply Interpretation.evaluate_total hWellFormed
  rw [List.length_append, List.length_replicate]
  omega

end Formula

end Formulas

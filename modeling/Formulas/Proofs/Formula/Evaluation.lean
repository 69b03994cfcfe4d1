import Formulas.Formula.Evaluation
import Formulas.Proofs.Operation
import Formulas.Proofs.Result

/-! When formulas have values. -/
namespace Formulas.Interpretation

variable {α : Type} {i : Interpretation α} {point : List α} {op : Operation}

theorem evaluate_constant_eq_ok {value : Constant} {a : α} :
    i.evaluate point (.constant value) = .ok a ↔ i.constant value = some a := by
  show i.constantValue value = .ok a ↔ _
  cases hValue : i.constant value <;> simp [constantValue, hValue]

theorem evaluate_coordinate_eq_ok {which : Coordinate} {a : α} :
    i.evaluate point (.coordinate which) = .ok a ↔ point[which.index]? = some a := by
  show coordinateValue point which = .ok a ↔ _
  cases hValue : point[which.index]? <;> simp [coordinateValue, hValue]

theorem coordinateValue_map {β : Type} {number : β → α} {point : List β} {which : Coordinate}
    {b : β} (hPoint : point[which.index]? = some b) :
    coordinateValue (point.map number) which = .ok (number b) := by
  rw [coordinateValue, List.getElem?_map, hPoint, Option.map_some]

theorem evaluate_operation (operands : List Formula) :
    i.evaluate point (.operation op operands) =
      (operands.map (i.evaluate point)).mapM id >>= i.operationValue op := by
  rw [evaluate, Formula.fold_operation]

/-- An operation has a value when its operands have one each and are as many as it admits. -/
theorem evaluate_operation_eq_ok {operands : List Formula} {a : α} :
    i.evaluate point (.operation op operands) = .ok a ↔
      op.admits operands.length = true ∧ ∃ values,
        List.Forall₂ (fun f b => i.evaluate point f = .ok b) operands values ∧
          i.operation op values = a := by
  rw [evaluate_operation, Result.bind_eq_ok]
  simp only [Result.mapM_eq_ok, List.forall₂_map_left_iff, id_eq, operationValue]
  constructor
  · rintro ⟨values, hValues, hAdmitted⟩
    have hLength := hValues.length_eq
    split_ifs at hAdmitted with hAdmits
    exact ⟨by rwa [hLength], values, hValues, Except.ok.inj hAdmitted⟩
  · rintro ⟨hAdmits, values, hValues, rfl⟩
    have hLength := hValues.length_eq
    exact ⟨values, hValues, if_pos (by rwa [← hLength])⟩

theorem ne_nil_of_geomMean {operands : List Formula} {a : α}
    (hValue : i.evaluate point (.operation .geomMean operands) = .ok a) : operands ≠ [] := by
  rintro rfl
  exact Bool.noConfusion (evaluate_operation_eq_ok.mp hValue).1

theorem evaluate_pair (hArity : op.arity = .exactly 2) {f g : Formula} {a b : α}
    (hLeft : i.evaluate point f = .ok a) (hRight : i.evaluate point g = .ok b) :
    i.evaluate point (.operation op [f, g]) = .ok (i.operation op [a, b]) :=
  evaluate_operation_eq_ok.mpr
    ⟨(Operation.admits_of_exactly hArity).mpr rfl, [a, b], .cons hLeft (.cons hRight .nil), rfl⟩

end Formulas.Interpretation

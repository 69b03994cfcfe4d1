import Formulas.Formula.Evaluation
import Formulas.Proofs.Formula.Preorder
import Formulas.Proofs.Formula.Shape

/-! The constants of a formula, from left to right. Tests of the constants alone ask for
nothing else, and replacing all constants changes nothing but them. -/
namespace Formulas

namespace Formula

@[simp] theorem constants_constant (value : Constant) : constants (.constant value) = [value] := by
  rw [constants, nodes_depthFirst]
  rfl

@[simp] theorem constants_coordinate (which : Coordinate) :
    constants (.coordinate which) = [] := by
  rw [constants, nodes_depthFirst]
  rfl

theorem constants_operation (op : Operation) (operands : List Formula) :
    constants (.operation op operands) = operands.flatMap constants := by
  rw [constants, nodes_depthFirst]
  simp only [Formula.operands, List.filterMap_cons, List.filterMap_flatMap]
  rfl

/-- The constants are those leaves that are no coordinates. -/
theorem mem_constants_iff {f : Formula} {value : Constant} :
    value ∈ f.constants ↔ .constant value ∈ f.leaves := by
  simp only [constants, leaves, List.mem_filterMap, List.mem_filter]
  constructor
  · rintro ⟨node, hNode, hValue⟩
    cases node with
    | constant other =>
        obtain rfl : other = value := Option.some.inj hValue
        exact ⟨hNode, rfl⟩
    | coordinate which => simp at hValue
    | operation op operands => simp at hValue
  · rintro ⟨hNode, -⟩
    exact ⟨_, hNode, rfl⟩

/-- A test of the constants alone is passed when all constants pass it. -/
theorem everywhere_iff_constants {test : Constant → Bool} {f : Formula} :
    f.everywhere test (fun _ _ => true) = true ↔ ∀ value ∈ f.constants, test value = true := by
  induction f with
  | constant value => simp
  | coordinate which => simp
  | operation op operands ih =>
      rw [everywhere_operation, constants_operation]
      simp only [true_and, List.mem_flatMap, forall_exists_index, and_imp]
      constructor
      · intro hOperands value f hf hValue
        exact (ih f hf).mp (hOperands f hf) value hValue
      · intro hConstants f hf
        exact (ih f hf).mpr fun value hValue => hConstants value f hf hValue

/-- The formula with all its constants replaced. -/
def mapConstants (replace : Constant → Constant) : Formula → Formula :=
  fold (fun value => .constant (replace value)) .coordinate .operation

theorem mapConstants_operation (replace : Constant → Constant) (op : Operation)
    (operands : List Formula) :
    mapConstants replace (.operation op operands) =
      .operation op (operands.map (mapConstants replace)) :=
  fold_operation ..

theorem constants_mapConstants (replace : Constant → Constant) (f : Formula) :
    (f.mapConstants replace).constants = f.constants.map replace := by
  induction f with
  | constant value => simp [mapConstants, fold]
  | coordinate which => simp [mapConstants, fold]
  | operation op operands ih =>
      rw [mapConstants_operation, constants_operation, constants_operation, List.map_flatMap,
        List.flatMap_map]
      exact List.flatMap_congr ih

/-- A formula keeps what its constants keep. -/
theorem mapConstants_of_forall {replace : Constant → Constant} {f : Formula}
    (hKept : ∀ value ∈ f.constants, replace value = value) : f.mapConstants replace = f := by
  induction f with
  | constant value => exact congrArg Formula.constant (hKept value (by simp))
  | coordinate which => rfl
  | operation op operands ih =>
      rw [mapConstants_operation]
      congr 1
      conv_rhs => rw [← List.map_id operands]
      refine List.map_congr_left fun f hf => ih f hf fun value hValue => hKept value ?_
      rw [constants_operation]
      exact List.mem_flatMap_of_mem hf hValue

end Formula

namespace Interpretation

variable {α : Type}

/-- Replacing constants is the same as giving values to the replaced ones. -/
theorem evaluate_mapConstants (i : Interpretation α) (replace : Constant → Constant)
    (point : List α) (f : Formula) :
    i.evaluate point (f.mapConstants replace) =
      (⟨fun value => i.constant (replace value), i.operation⟩ : Interpretation α).evaluate
        point f := by
  induction f with
  | constant value => rfl
  | coordinate which => rfl
  | operation op operands ih =>
      rw [Formula.mapConstants_operation, evaluate, Formula.fold_operation, evaluate,
        Formula.fold_operation, List.map_map]
      exact congrArg (fun results => results.mapM id >>= i.operationValue op)
        (List.map_congr_left ih)

end Interpretation

end Formulas

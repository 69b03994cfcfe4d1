import Formulas.Formula.Derivative
import Formulas.Proofs.Formula.Preorder
import Formulas.Proofs.Operation
import Formulas.Proofs.Result

/-! Formulas paired with their derivatives. The derivative of an operation is what its rule
makes of the operands with their derivatives, all of which the rule uses. -/
namespace Formulas

namespace Operation

theorem slopeFailure?_of_admits {op : Operation} {given : Nat}
    (hAdmits : op.admits given = true) : op.slopeFailure? given = none := by
  unfold slopeFailure?
  cases hArity : op.arity with
  | exactly count => exact if_pos ((admits_of_exactly hArity).mp hAdmits)
  | variadic => exact if_pos (Or.inl ((admits_of_variadic hArity).mp hAdmits))

theorem slopeOrder_map {α β : Type} (op : Operation) (g : α → β) (operands : List α) :
    op.slopeOrder (operands.map g) = (op.slopeOrder operands).map g := by
  unfold slopeOrder
  split_ifs
  · exact List.map_reverse.symm
  · rfl

theorem mem_slopeOrder {α : Type} {op : Operation} {operands : List α} {a : α} :
    a ∈ op.slopeOrder operands ↔ a ∈ operands := by
  unfold slopeOrder
  split_ifs
  · exact List.mem_reverse
  · exact Iff.rfl

theorem slopeOrder_slopeOrder {α : Type} (op : Operation) (operands : List α) :
    op.slopeOrder (op.slopeOrder operands) = operands := by
  unfold slopeOrder
  split_ifs
  · exact List.reverse_reverse operands
  · rfl

end Operation

namespace Jet

/-- Formulas that have jets with some property each have a list of such jets. -/
theorem exists_jets (P : Jet → Prop) {operands : List Formula}
    (hOperands : ∀ f ∈ operands, ∃ slope, P ⟨f, slope⟩) :
    ∃ jets : List Jet, jets.map value = operands ∧ ∀ j ∈ jets, P j := by
  induction operands with
  | nil => exact ⟨[], rfl, List.forall_mem_nil P⟩
  | cons f rest ih =>
      obtain ⟨hFirst, hRest⟩ := List.forall_mem_cons.mp hOperands
      obtain ⟨slope, hJet⟩ := hFirst
      obtain ⟨jets, rfl, hJets⟩ := ih hRest
      exact ⟨⟨f, slope⟩ :: jets, rfl, List.forall_mem_cons.mpr ⟨hJet, hJets⟩⟩

open Formula (mem_nodes_operation mem_nodes_self mem_nodes_trans)

/-- A derivative that is found from left to right uses all derivatives. -/
theorem slope_mem_foldl {step : Jet → Jet → Jet}
    (hLeft : ∀ j k, j.slope ∈ (step j k).slope.nodes .depthFirst)
    (hRight : ∀ j k, k.slope ∈ (step j k).slope.nodes .depthFirst) (first : Jet)
    (rest : List Jet) :
    ∀ j ∈ first :: rest, j.slope ∈ (rest.foldl step first).slope.nodes .depthFirst := by
  induction rest generalizing first with
  | nil => simp
  | cons next rest ih =>
      obtain ⟨hNext, hRest⟩ := List.forall_mem_cons.mp (ih (step first next))
      refine List.forall_mem_cons.mpr ⟨mem_nodes_trans (hLeft first next) hNext, ?_⟩
      exact List.forall_mem_cons.mpr ⟨mem_nodes_trans (hRight first next) hNext, hRest⟩

theorem slope_mem_add (j k : Jet) : j.slope ∈ (j.add k).slope.nodes .depthFirst ∧
    k.slope ∈ (j.add k).slope.nodes .depthFirst := by
  simp [add, mem_nodes_operation]

theorem slope_mem_mul (j k : Jet) : j.slope ∈ (j.mul k).slope.nodes .depthFirst ∧
    k.slope ∈ (j.mul k).slope.nodes .depthFirst := by
  simp [mul, mem_nodes_operation]

theorem slope_mem_div (j k : Jet) : j.slope ∈ (j.div k).slope.nodes .depthFirst ∧
    k.slope ∈ (j.div k).slope.nodes .depthFirst := by
  simp [div, mem_nodes_operation]

/-- The rules use the derivatives of all operands. -/
theorem slope_mem_operationSlope {op : Operation} {jets : List Jet}
    (hAdmits : op.admits jets.length = true) :
    ∀ j ∈ jets, j.slope ∈ (operationSlope op jets).nodes .depthFirst := by
  cases op with
  | add =>
      obtain ⟨j, k, rfl⟩ := Operation.exists_pair rfl hAdmits
      simpa [operationSlope] using slope_mem_add j k
  | sub =>
      obtain ⟨j, k, rfl⟩ := Operation.exists_pair rfl hAdmits
      simp [operationSlope, mem_nodes_operation]
  | mul =>
      obtain ⟨j, k, rfl⟩ := Operation.exists_pair rfl hAdmits
      simpa [operationSlope] using slope_mem_mul j k
  | div =>
      obtain ⟨j, k, rfl⟩ := Operation.exists_pair rfl hAdmits
      simpa [operationSlope] using slope_mem_div j k
  | hypot =>
      obtain ⟨j, k, rfl⟩ := Operation.exists_pair rfl hAdmits
      simp [operationSlope, hypotSlope, mem_nodes_operation]
  | hmean =>
      obtain ⟨j, k, rfl⟩ := Operation.exists_pair rfl hAdmits
      simp [operationSlope, hmeanSlope, mem_nodes_operation]
  | negate =>
      obtain ⟨j, rfl⟩ := Operation.exists_single rfl hAdmits
      simp [operationSlope, mem_nodes_operation]
  | arithMean =>
      obtain ⟨first, rest, rfl⟩ := Operation.exists_cons hAdmits
      have hFold := slope_mem_foldl (fun j k => (slope_mem_add j k).1)
        (fun j k => (slope_mem_add j k).2) first rest
      intro j hj
      exact mem_nodes_operation.mpr (.inr ⟨_, List.mem_cons_self .., hFold j hj⟩)
  | geomMean =>
      obtain ⟨first, rest, rfl⟩ := Operation.exists_cons hAdmits
      have hFold := slope_mem_foldl (fun j k => (slope_mem_mul j k).1)
        (fun j k => (slope_mem_mul j k).2) first rest
      intro j hj
      have hProduct := mem_nodes_trans (hFold j hj)
        (slope_mem_mul (real (Binary64.round false 1 (rest.length + 1))) (rest.foldl mul first)).2
      exact mem_nodes_operation.mpr (.inr ⟨_, List.mem_cons_self .., hProduct⟩)
  | harmMean =>
      have hFold := slope_mem_foldl (fun j k => (slope_mem_add j ((integer 1).div k)).1)
        (fun j k => mem_nodes_trans (slope_mem_div (integer 1) k).2
          (slope_mem_add j ((integer 1).div k)).2) (integer 0) jets
      intro j hj
      exact mem_nodes_trans (hFold j (List.mem_cons_of_mem _ hj))
        (slope_mem_div (integer jets.length) _).2

end Jet

namespace Formula

variable (name : String)

theorem withDerivative_operation (op : Operation) (operands : List Formula) :
    withDerivative name (.operation op operands) =
      (.operation op ((operands.map (withDerivative name)).map Prod.fst),
        operationDerivative op (operands.map (withDerivative name))) :=
  fold_operation ..

theorem withDerivative_eq (f : Formula) : withDerivative name f = (f, derivative name f) := by
  induction f with
  | constant value => rfl
  | coordinate which => rfl
  | operation op operands ih =>
      have hOperands : (operands.map (withDerivative name)).map Prod.fst = operands := by
        rw [List.map_map]
        conv_rhs => rw [← List.map_id operands]
        apply List.map_congr_left
        intro f hf
        exact congrArg Prod.fst (ih f hf)
      refine Prod.ext ?_ rfl
      rw [withDerivative_operation, hOperands]

theorem derivative_operation (op : Operation) (operands : List Formula) :
    derivative name (.operation op operands) =
      operationDerivative op (operands.map fun f => (f, f.derivative name)) := by
  rw [derivative, withDerivative_operation, funext (withDerivative_eq name)]

variable {name}

/-- An operation whose operands have derivatives has one as well. -/
theorem derivative_of_jets {op : Operation} {jets : List Jet}
    (hAdmits : op.admits jets.length = true)
    (hJets : ∀ j ∈ jets, j.value.derivative name = .ok j.slope) :
    derivative name (.operation op (jets.map Jet.value)) = .ok (Jet.operationSlope op jets) := by
  have hParts : (jets.map Jet.value).map (fun f => (f, f.derivative name)) =
      jets.map fun j => (j.value, .ok j.slope) := by
    rw [List.map_map]
    apply List.map_congr_left
    intro j hj
    exact congrArg (Prod.mk j.value) (hJets j hj)
  have hOrdered : ((op.slopeOrder jets).map fun j => (j.value, .ok j.slope)).mapM jet =
      .ok (op.slopeOrder jets) := by
    rw [Result.mapM_eq_ok, List.forall₂_map_left_iff]
    exact List.forall₂_same.mpr fun _ _ => rfl
  rw [derivative_operation, hParts]
  simp only [operationDerivative, List.length_map, Operation.slopeFailure?_of_admits hAdmits,
    Operation.slopeOrder_map, hOrdered, Result.ok_bind, Operation.slopeOrder_slopeOrder]

end Formula

end Formulas

import Formulas.Formula.Traversal
import Mathlib.Algebra.BigOperators.Group.List.Basic

/-! The nodes of a formula, each before its operands. The visit of a stack does not look
beyond the formula on top before it is done with it, so the nodes of an operation are the
operation itself and then those of its operands. -/
namespace Formulas.Formula

theorem visitStack_append (front back : List Formula) :
    visitStack (front ++ back) = visitStack front ++ visitStack back := by
  fun_induction visitStack front with
  | case1 => rfl
  | case2 f stack ih =>
      rw [List.cons_append, visitStack, ← List.append_assoc, ih, List.cons_append]

theorem visitStack_eq_flatMap (formulas : List Formula) :
    visitStack formulas = formulas.flatMap (nodes .depthFirst) := by
  induction formulas with
  | nil => rw [visitStack, List.flatMap_nil]
  | cons f rest ih =>
      rw [← List.singleton_append, visitStack_append, ih]
      rfl

theorem nodes_depthFirst (f : Formula) :
    f.nodes .depthFirst = f :: f.operands.flatMap (nodes .depthFirst) := by
  rw [nodes, visitStack, List.append_nil, visitStack_eq_flatMap]

variable {f g h : Formula} {op : Operation} {operands : List Formula}

@[simp] theorem mem_nodes_self (f : Formula) : f ∈ f.nodes .depthFirst := by
  rw [nodes_depthFirst]
  exact List.mem_cons_self ..

theorem mem_nodes_operation : g ∈ nodes .depthFirst (.operation op operands) ↔
    g = .operation op operands ∨ ∃ f ∈ operands, g ∈ f.nodes .depthFirst := by
  rw [nodes_depthFirst, List.mem_cons, List.mem_flatMap]
  rfl

theorem eq_of_mem_nodes (hLeaf : f.isOperation = false) (hg : g ∈ f.nodes .depthFirst) :
    g = f := by
  rw [nodes_depthFirst] at hg
  cases f with
  | constant value => simpa [Formula.operands] using hg
  | coordinate which => simpa [Formula.operands] using hg
  | operation op operands => exact Bool.noConfusion hLeaf

theorem mem_nodes_trans (hg : g ∈ f.nodes .depthFirst) (hf : f ∈ h.nodes .depthFirst) :
    g ∈ h.nodes .depthFirst := by
  induction h with
  | constant value => exact eq_of_mem_nodes rfl hf ▸ hg
  | coordinate which => exact eq_of_mem_nodes rfl hf ▸ hg
  | operation op operands ih =>
      rcases mem_nodes_operation.mp hf with rfl | ⟨part, hPart, hf⟩
      · exact hg
      · exact mem_nodes_operation.mpr (.inr ⟨part, hPart, ih part hPart hf⟩)

/-- A queue is visited in another order than a stack, but visits the same nodes. -/
theorem visitQueue_perm (formulas : List Formula) :
    (visitQueue formulas).Perm (visitStack formulas) := by
  fun_induction visitQueue formulas with
  | case1 => rw [visitStack]
  | case2 f queue ih =>
      rw [visitStack, visitStack_append]
      rw [visitStack_append] at ih
      exact (ih.trans List.perm_append_comm).cons f

/-- The leaves from left to right. -/
def leaves (f : Formula) : List Formula :=
  (f.nodes .depthFirst).filter fun node => !node.isOperation

theorem leaves_of_isOperation_eq_false {f : Formula} (hLeaf : f.isOperation = false) :
    f.leaves = [f] := by
  cases f <;> simp_all [leaves, nodes_depthFirst, operands, isOperation]

theorem leaves_operation (op : Operation) (operands : List Formula) :
    leaves (.operation op operands) = operands.flatMap leaves := by
  rw [leaves, nodes_depthFirst]
  simp only [Formula.operands, List.filter_cons, isOperation, List.filter_flatMap]
  rfl

/-- The coordinates that occur are those among the leaves. -/
theorem mem_coordinates_iff {f : Formula} {which : Coordinate} :
    which ∈ f.coordinates ↔ .coordinate which ∈ f.leaves := by
  have hNodes : Formula.coordinate which ∈ f.nodes .breadthFirst ↔
      .coordinate which ∈ f.nodes .depthFirst := (visitQueue_perm [f]).mem_iff
  simp [coordinates, leaves, which.mem_all, hNodes, isOperation]

theorem kinds_of_isOperation_eq_false {f : Formula} (hLeaf : f.isOperation = false) :
    f.kinds = [] := by
  cases f <;> simp_all [kinds, nodes_depthFirst, operands, isOperation]

theorem kinds_operation (op : Operation) (operands : List Formula) :
    kinds (.operation op operands) = op :: operands.flatMap kinds := by
  rw [kinds, nodes_depthFirst]
  simp only [Formula.operands, List.filterMap_cons, List.filterMap_flatMap]
  rfl

/-- Every node is a leaf or an operation. -/
theorem size_eq_leaves_kinds (f : Formula) : f.size = f.leaves.length + f.kinds.length := by
  induction f with
  | constant value =>
      rw [leaves_of_isOperation_eq_false rfl, kinds_of_isOperation_eq_false rfl]
      rfl
  | coordinate which =>
      rw [leaves_of_isOperation_eq_false rfl, kinds_of_isOperation_eq_false rfl]
      rfl
  | operation op operands ih =>
      have hSizes : (operands.map size).sum =
          (operands.flatMap leaves).length + (operands.flatMap kinds).length := by
        rw [List.map_congr_left ih, List.length_flatMap, List.length_flatMap, List.sum_map_add]
      rw [size_operation, leaves_operation, kinds_operation, List.length_cons, hSizes]
      omega

end Formulas.Formula

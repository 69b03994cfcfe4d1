import Formulas.Proofs.Formula.Constants
import Formulas.Proofs.Formula.FirstFailure
import Mathlib.Algebra.BigOperators.Group.List.Lemmas

/-! The two worklist loops. A stack visits the nodes in the order of a recursion over the formula,
and a queue visits them level by level: while one level is visited, the next one is queued behind
it. Either loop ends after as many passes as there are nodes. -/
namespace Formulas

open scoped Natural

theorem nodup_eraseDups {α : Type} [DecidableEq α] (as : List α) : as.eraseDups.Nodup := by
  cases as with
  | nil => exact List.nodup_nil
  | cons a rest =>
      rw [List.eraseDups_cons, List.nodup_cons, List.mem_eraseDups]
      exact ⟨by simp, nodup_eraseDups _⟩
termination_by as.length
decreasing_by exact Nat.lt_succ_of_le (List.length_filter_le ..)

/-- A list is as long as its distinct members are often in it. -/
theorem sum_map_count_eraseDups {α : Type} [DecidableEq α] (as : List α) :
    (as.eraseDups.map fun a => as.count a).sum = as.length := by
  have hPerm : as.eraseDups.Perm as.dedup := by
    rw [List.perm_ext_iff_of_nodup (nodup_eraseDups as) as.nodup_dedup]
    simp
  rw [(hPerm.map _).sum_eq, List.sum_map_count_dedup_eq_length]

/-- What a loop over the nodes has visited, and what waits in its worklist. -/
structure Visit where
  visited : List Formula
  waiting : List Formula

namespace Visit

open Formula (visitQueue visitStack totalSize totalSize_append totalSize_cons size_eq_operands)

/-- A loop starts with the whole formula in its worklist. -/
def start (f : Formula) : Visit :=
  ⟨[], [f]⟩

/-- One pass of a loop, if anything waits. A queue is taken from at the front and a stack at the
back. Both take up the operands at the back, the stack from the last one to the first. -/
def pass? (order : Order) (v : Visit) : Option Visit :=
  match order with
  | .breadthFirst =>
    v.waiting.head?.map fun f => ⟨v.visited ++ [f], v.waiting.tail ++ f.operands⟩
  | .depthFirst =>
    v.waiting.getLast?.map fun f => ⟨v.visited ++ [f], v.waiting.dropLast ++ f.operands.reverse⟩

/-- The loop stops after so many passes, when nothing waits, and has visited these nodes. -/
inductive Finishes (order : Order) : Visit → Nat → List Formula → Prop
  | stop {nodes : List Formula} : Finishes order ⟨nodes, []⟩ 0 nodes
  | pass {v next : Visit} {passes : Nat} {nodes : List Formula} (first : v.pass? order = some next)
      (rest : Finishes order next passes nodes) : Finishes order v (passes + 1) nodes

/-- Every node that waits takes one pass for itself and each node below it. -/
theorem finishes_queue (visited queue : List Formula) :
    Finishes .breadthFirst ⟨visited, queue⟩ (totalSize queue) (visited ++ visitQueue queue) := by
  fun_induction visitQueue queue generalizing visited with
  | case1 => exact (List.append_nil visited).symm ▸ Finishes.stop
  | case2 f queue ih =>
      have hRest := ih (visited ++ [f])
      have hPasses : totalSize (f :: queue) = totalSize (queue ++ f.operands) + 1 := by
        rw [totalSize_cons, totalSize_append, size_eq_operands f]
        omega
      rw [List.append_assoc] at hRest
      rw [hPasses]
      exact .pass rfl hRest

/-- The loop keeps the top of the stack at the back of its worklist. -/
theorem finishes_stack (visited stack : List Formula) :
    Finishes .depthFirst ⟨visited, stack.reverse⟩ (totalSize stack)
      (visited ++ visitStack stack) := by
  fun_induction visitStack stack generalizing visited with
  | case1 => exact (List.append_nil visited).symm ▸ Finishes.stop
  | case2 f stack ih =>
      have hRest := ih (visited ++ [f])
      have hPasses : totalSize (f :: stack) = totalSize (f.operands ++ stack) + 1 := by
        rw [totalSize_cons, totalSize_append, size_eq_operands f]
        omega
      rw [List.append_assoc, List.reverse_append] at hRest
      rw [hPasses]
      exact .pass (by simp [pass?]) hRest

theorem finishes_start (order : Order) (f : Formula) :
    Finishes order (start f) f.size (f.nodes order) := by
  have hSize : totalSize [f] = f.size := by simp [totalSize]
  rw [← hSize]
  cases order with
  | breadthFirst => exact finishes_queue [] [f]
  | depthFirst => exact finishes_stack [] [f]

end Visit

namespace Formula

/-- Each node before its operands, which are visited from left to right. -/
def preorder : Formula → List Formula :=
  arranged fun _ f parts => f :: parts.flatten

theorem nodes_depthFirst_eq_preorder (f : Formula) : f.nodes .depthFirst = f.preorder := by
  induction f with
  | constant value => exact nodes_depthFirst _
  | coordinate which => exact nodes_depthFirst _
  | operation op operands ih =>
      rw [nodes_depthFirst, preorder, arranged_operation]
      exact congrArg (List.cons _) (congrArg List.flatten (List.map_congr_left ih))

/-- The nodes that lie so many steps below the root, from left to right. -/
def level (f : Formula) : Nat → List Formula
  | 0 => [f]
  | n + 1 => (f.level n).flatMap operands

/-- While a row of nodes is visited, all their operands are queued behind what waits. -/
theorem visitQueue_append (row queued : List Formula) :
    visitQueue (row ++ queued) = row ++ visitQueue (queued ++ row.flatMap operands) := by
  induction row generalizing queued with
  | nil => simp
  | cons f row ih =>
      rw [List.cons_append, visitQueue, List.append_assoc, ih, List.append_assoc,
        List.flatMap_cons, List.cons_append]

/-- The first levels are visited one after the other, and then the next one waits. -/
theorem visitQueue_levels (f : Formula) (count : Nat) :
    visitQueue [f] = ((List.range count).map f.level).flatten ++ visitQueue (f.level count) := by
  induction count with
  | zero => rfl
  | succ count ih =>
      have hLevel := visitQueue_append (f.level count) []
      rw [List.append_nil, List.nil_append] at hLevel
      rw [ih, hLevel, List.range_succ, List.map_append, List.flatten_append, List.append_assoc]
      simp [level]

theorem depth_operation (op : Operation) (operands : List Formula) :
    depth (.operation op operands) = 1 + (operands.map depth).foldl max 0 :=
  fold_operation ..

theorem foldl_max_le_iff {depths : List Nat} {first bound : Nat} :
    depths.foldl max first ≤ bound ↔ first ≤ bound ∧ ∀ depth ∈ depths, depth ≤ bound := by
  induction depths generalizing first with
  | nil => simp
  | cons depth depths ih =>
      rw [List.foldl_cons, ih, Nat.max_le, List.forall_mem_cons, and_assoc]

/-- A formula is one step deeper than its deepest operand. -/
theorem depth_le_succ_iff {f : Formula} {bound : Nat} :
    f.depth ≤ bound + 1 ↔ ∀ g ∈ f.operands, g.depth ≤ bound := by
  cases f with
  | constant value => simp [depth, fold, operands]
  | coordinate which => simp [depth, fold, operands]
  | operation op parts =>
      rw [depth_operation, Nat.add_comm, Nat.add_le_add_iff_right, foldl_max_le_iff]
      simp [operands]

theorem depth_pos (f : Formula) : 0 < f.depth := by
  cases f with
  | constant value => exact Nat.one_pos
  | coordinate which => exact Nat.one_pos
  | operation op operands => rw [depth_operation]; omega

theorem forall_mem_level {f : Formula} {n bound : Nat} :
    (∀ g ∈ f.level n, g.depth ≤ bound) ↔ f.depth ≤ n + bound := by
  induction n generalizing bound with
  | zero => simp [level]
  | succ n ih =>
      rw [show n + 1 + bound = n + (bound + 1) by omega, ← ih]
      simp only [level, List.mem_flatMap, depth_le_succ_iff, forall_exists_index, and_imp]
      exact ⟨fun hAll g hg h hh => hAll h g hg hh, fun hAll h g hg hh => hAll g hg h hh⟩

/-- There are nodes on exactly as many levels as the formula is deep. -/
theorem level_ne_nil_iff {f : Formula} {n : Nat} : f.level n ≠ [] ↔ n < f.depth := by
  have hNone : (∀ g ∈ f.level n, g.depth ≤ 0) ↔ f.level n = [] := by
    rw [List.eq_nil_iff_forall_not_mem]
    exact forall₂_congr fun g _ => ⟨fun hg => absurd g.depth_pos (by omega), fun hg => hg.elim⟩
  rw [ne_eq, ← hNone, forall_mem_level]
  omega

theorem nodes_breadthFirst_eq_levels (f : Formula) :
    f.nodes .breadthFirst = ((List.range f.depth).map f.level).flatten := by
  have hLast : f.level f.depth = [] := by
    by_contra hSome
    exact absurd (level_ne_nil_iff.mp hSome) (Nat.lt_irrefl _)
  rw [nodes, visitQueue_levels f f.depth, hLast, visitQueue, List.append_nil]

/-- The number of leaves that are coordinates. -/
def coordinateCount : Formula → Nat :=
  fold (fun _ => 0) (fun _ => 1) fun _ counts => counts.sum

theorem coordinateCount_operation (op : Operation) (operands : List Formula) :
    coordinateCount (.operation op operands) = (operands.map coordinateCount).sum :=
  fold_operation ..

/-- Every node is a constant, a coordinate or an operation. -/
theorem size_eq_constants_coordinates_kinds (f : Formula) :
    f.size = f.constants.length + f.coordinateCount + f.kinds.length := by
  induction f with
  | constant value =>
      rw [constants_constant, kinds_of_isOperation_eq_false rfl]
      rfl
  | coordinate which =>
      rw [constants_coordinate, kinds_of_isOperation_eq_false rfl]
      rfl
  | operation op operands ih =>
      rw [size_operation, constants_operation, coordinateCount_operation, kinds_operation,
        List.map_congr_left ih, List.sum_map_add, List.sum_map_add, List.length_flatMap,
        List.length_cons, List.length_flatMap]
      omega

theorem length_visitStack (formulas : List Formula) :
    (visitStack formulas).length = totalSize formulas := by
  fun_induction visitStack formulas with
  | case1 => rfl
  | case2 f stack ih =>
      rw [List.length_cons, ih, totalSize_append, totalSize_cons, size_eq_operands f]
      omega

/-- Either order visits each node once. -/
theorem length_nodes (order : Order) (f : Formula) : (f.nodes order).length = f.size := by
  have hStack : (visitStack [f]).length = f.size := by simp [length_visitStack, totalSize]
  cases order with
  | breadthFirst => exact (visitQueue_perm [f]).length_eq.trans hStack
  | depthFirst => exact hStack

theorem sum_countOperations (f : Formula) :
    (f.countOperations.map Prod.snd).sum = f.kinds.length := by
  rw [countOperations, List.map_map]
  exact sum_map_count_eraseDups f.kinds

/-- Both loops end after one pass for each node. The stack visits the nodes in preorder and the
queue level by level, where the levels with nodes are the first ones, as many as the formula is
deep. So the two visit the same nodes, each as often as it occurs, and these are the constants, the
occurrences of coordinates and the operations that are counted by kind. -/
theorem nodes_traversal (f : Formula) :
    (∀ order, Visit.Finishes order (.start f) f.size (f.nodes order)) ∧
      f.nodes .depthFirst = f.preorder ∧
      f.nodes .breadthFirst = ((List.range f.depth).map f.level).flatten ∧
      (∀ n, f.level n ≠ [] ↔ n < f.depth) ∧
      (f.nodes .breadthFirst).Perm (f.nodes .depthFirst) ∧
      (∀ order, (f.nodes order).length = f.size) ∧
      f.constants.length + f.coordinateCount + (f.countOperations.map Prod.snd).sum = f.size := by
  refine ⟨fun order => Visit.finishes_start order f, nodes_depthFirst_eq_preorder f,
    nodes_breadthFirst_eq_levels f, fun n => level_ne_nil_iff, visitQueue_perm [f],
    fun order => length_nodes order f, ?_⟩
  rw [sum_countOperations, size_eq_constants_coordinates_kinds]

end Formula

end Formulas

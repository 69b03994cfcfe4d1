import Formulas.Formula.Evaluation
import Formulas.Proofs.Formula.Preorder
import Formulas.Proofs.Result

/-! The nodes of a formula in an order that is put together at each operation from the orders of
its operands, and the first of them that fails. A list of results fails like the first one that
does, so what is computed from the operands of an operation fails like the first node that does. -/
namespace Formulas

namespace Result

variable {ε α β : Type}

/-- The failure of a result, if it is one. -/
def failure? : Except ε α → Option ε
  | .ok _ => none
  | .error e => some e

@[simp] theorem failure?_ok (a : α) : failure? (.ok a : Except ε α) = none := rfl

@[simp] theorem failure?_error (e : ε) : failure? (.error e : Except ε α) = some e := rfl

theorem failure?_eq_some_iff {result : Except ε α} {e : ε} :
    failure? result = some e ↔ result = .error e := by
  cases result <;> simp

/-- Behind a first result that succeeds, a bind fails as what follows does. -/
theorem failure?_bind {result : Except ε α} {next : α → Except ε β} {last : Option ε}
    (hNext : ∀ a, result = .ok a → failure? (next a) = last) :
    failure? (result >>= next) = (failure? result).or last := by
  cases result with
  | error e => rfl
  | ok a => rw [ok_bind, hNext a rfl, failure?_ok, Option.none_or]

/-- A bind fails as its first result does when what follows cannot fail. -/
theorem failure?_bind_of_total {result : Except ε α} {next : α → Except ε β}
    (hNext : ∀ a, failure? (next a) = none) : failure? (result >>= next) = failure? result := by
  rw [failure?_bind fun a _ => hNext a, Option.or_none]

/-- A list of results fails like the first one that fails. -/
theorem failure?_mapM (f : α → Except ε β) (as : List α) :
    failure? (as.mapM f) = as.findSome? fun a => failure? (f a) := by
  induction as with
  | nil => rfl
  | cons a rest ih =>
      rw [List.mapM_cons, List.findSome?_cons]
      cases hFirst : f a with
      | error e => rfl
      | ok b =>
          rw [ok_bind, failure?_bind_of_total fun _ => rfl, ih, failure?_ok]

end Result

/-- What is found first in several lists, one after the other, is what is found first in one of
them. -/
theorem findSome?_flatten {α β γ : Type} {find : β → Option γ} {lists : α → List β}
    {first : α → Option γ} {as : List α}
    (hFirst : ∀ a ∈ as, first a = (lists a).findSome? find) :
    (as.map lists).flatten.findSome? find = as.findSome? first := by
  induction as with
  | nil => rfl
  | cons a rest ih =>
      obtain ⟨hHead, hRest⟩ := List.forall_mem_cons.mp hFirst
      rw [List.map_cons, List.flatten_cons, List.findSome?_append, ← hHead, ih hRest,
        List.findSome?_cons]
      cases first a <;> rfl

namespace Formula

/-- A formula with its nodes, which are arranged for each operation from the operation itself and
from the nodes of its operands. -/
def withArranged (arrange : Operation → Formula → List (List Formula) → List Formula) :
    Formula → Formula × List Formula :=
  fold (fun value => (.constant value, [.constant value]))
    (fun which => (.coordinate which, [.coordinate which]))
    fun op parts =>
      let f := .operation op (parts.map Prod.fst)
      (f, arrange op f (parts.map Prod.snd))

/-- The nodes of a formula in such an arrangement. -/
def arranged (arrange : Operation → Formula → List (List Formula) → List Formula)
    (f : Formula) : List Formula :=
  (withArranged arrange f).2

section
variable (arrange : Operation → Formula → List (List Formula) → List Formula)

theorem withArranged_eq (f : Formula) : withArranged arrange f = (f, f.arranged arrange) := by
  induction f with
  | constant value => rfl
  | coordinate which => rfl
  | operation op operands ih =>
      have hOperands : (operands.map (withArranged arrange)).map Prod.fst = operands := by
        rw [List.map_map]
        conv_rhs => rw [← List.map_id operands]
        exact List.map_congr_left fun f hf => congrArg Prod.fst (ih f hf)
      refine Prod.ext ?_ rfl
      rw [withArranged, fold_operation]
      exact congrArg (Formula.operation op) hOperands

theorem arranged_operation (op : Operation) (operands : List Formula) :
    arranged arrange (.operation op operands) =
      arrange op (.operation op operands) (operands.map (arranged arrange)) := by
  have hParts : operands.map (withArranged arrange) =
      operands.map fun f => (f, f.arranged arrange) :=
    List.map_congr_left fun f _ => withArranged_eq arrange f
  rw [arranged, withArranged, fold_operation]
  show arrange op (.operation op ((operands.map (withArranged arrange)).map Prod.fst))
    ((operands.map (withArranged arrange)).map Prod.snd) = _
  rw [hParts, List.map_map, List.map_map]
  exact congrArg (fun parts => arrange op (.operation op parts) _) (List.map_id operands)

variable {arrange}

/-- An arrangement that puts every node somewhere has the nodes of the formula. -/
theorem arranged_perm (hArrange : ∀ op f parts, (arrange op f parts).Perm (f :: parts.flatten))
    (f : Formula) : (f.arranged arrange).Perm (f.nodes .depthFirst) := by
  induction f with
  | constant value => rw [nodes_depthFirst]; exact List.Perm.refl _
  | coordinate which => rw [nodes_depthFirst]; exact List.Perm.refl _
  | operation op operands ih =>
      rw [arranged_operation, nodes_depthFirst]
      refine (hArrange op _ _).trans (List.Perm.cons _ ?_)
      exact List.Perm.flatMap_left operands ih

end

/-- The nodes of a formula, each behind its operands, which are visited from left to right. -/
def postorder : Formula → List Formula :=
  arranged fun _ f parts => parts.flatten ++ [f]

/-- The nodes of a formula, each before its operands. These are visited from left to right, but
the second operand of a binary harmonic mean comes before the first. -/
def ruleOrder : Formula → List Formula :=
  arranged fun op f parts => f :: (if op = .hmean then parts.reverse else parts).flatten

theorem postorder_perm (f : Formula) : f.postorder.Perm (f.nodes .depthFirst) :=
  arranged_perm (fun _ f parts => List.perm_append_singleton f parts.flatten) f

theorem ruleOrder_perm (f : Formula) : f.ruleOrder.Perm (f.nodes .depthFirst) := by
  refine arranged_perm (fun op f parts => List.Perm.cons f ?_) f
  split_ifs
  · exact (List.reverse_perm parts).flatten
  · exact List.Perm.refl _

/-- Among the nodes there is one that fails in this way, and none before it fails. -/
def FailsFirst (fails : Formula → Failure → Prop) (nodes : List Formula) (failure : Failure) :
    Prop :=
  ∃ before node after, nodes = before ++ node :: after ∧ fails node failure ∧
    ∀ earlier ∈ before, ∀ other, ¬ fails earlier other

variable {fails : Formula → Failure → Prop} {find : Formula → Option Failure}

/-- The first failure is what a search for failures finds. -/
theorem findSome?_eq_some_iff_failsFirst
    (hFind : ∀ node failure, find node = some failure ↔ fails node failure)
    {nodes : List Formula} {failure : Failure} :
    nodes.findSome? find = some failure ↔ FailsFirst fails nodes failure := by
  rw [List.findSome?_eq_some_iff, FailsFirst]
  simp only [Option.eq_none_iff_forall_ne_some, ne_eq, hFind]

/-- A failure comes first when some node fails. -/
theorem exists_failsFirst_iff
    (hFind : ∀ node failure, find node = some failure ↔ fails node failure)
    {nodes : List Formula} :
    (∃ failure, FailsFirst fails nodes failure) ↔
      ∃ node ∈ nodes, ∃ failure, fails node failure := by
  simp only [← findSome?_eq_some_iff_failsFirst hFind, ← hFind, ← Option.isSome_iff_exists]
  exact List.findSome?_isSome_iff

/-- What fails like the first of some nodes that does fails exactly when one of them does. -/
theorem eq_error_iff_failsFirst {α : Type} {result : Except Failure α} {nodes all : List Formula}
    (hFind : ∀ node failure, find node = some failure ↔ fails node failure)
    (hResult : Result.failure? result = nodes.findSome? find) (hNodes : nodes.Perm all) :
    (∀ failure, result = .error failure ↔ FailsFirst fails nodes failure) ∧
      ((∃ failure, result = .error failure) ↔ ∃ node ∈ all, ∃ failure, fails node failure) := by
  have hFailure (failure : Failure) :
      result = .error failure ↔ FailsFirst fails nodes failure := by
    rw [← findSome?_eq_some_iff_failsFirst hFind, ← hResult, Result.failure?_eq_some_iff]
  refine ⟨hFailure, ?_⟩
  simp only [hFailure, exists_failsFirst_iff hFind, hNodes.mem_iff]

end Formula

end Formulas

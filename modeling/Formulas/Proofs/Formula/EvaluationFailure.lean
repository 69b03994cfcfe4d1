import Formulas.Proofs.Binary64.Overflow
import Formulas.Proofs.Formula.FirstFailure
import Formulas.Proofs.Formula.Totality

/-! Which formulas have no value, and why. The operands of an operation are evaluated before they
are counted, so the failure is that of the first bad node in post-order. What the values of the
operands are does not matter. -/
namespace Formulas

namespace Operation

/-- The failure of an operation whose operands have values. -/
def countFailure? (op : Operation) (given : Nat) : Option Failure :=
  if op.admits given then none else some (.operandCount op given)

/-- An operation refuses every number of operands but its own, and a mean refuses none. -/
theorem admits_eq_false_iff {op : Operation} {given : Nat} : op.admits given = false ↔
    (∃ count, op.arity = .exactly count ∧ given ≠ count) ∨ op.arity = .variadic ∧ given = 0 := by
  cases hArity : op.arity <;> simp [admits, hArity, Arity.admits]

theorem countFailure?_eq_some_iff {op : Operation} {given : Nat} {failure : Failure} :
    op.countFailure? given = some failure ↔
      op.admits given = false ∧ failure = .operandCount op given := by
  rw [countFailure?, Option.ite_none_left_eq_some, Option.some.injEq, Bool.not_eq_true,
    @eq_comm _ failure]

end Operation

namespace Interpretation

variable {α : Type}

/-- The failure of a node itself, where its operands have values. -/
def nodeFailure? (i : Interpretation α) : Formula → Option Failure
  | .constant value => Result.failure? (i.constantValue value)
  | .coordinate _ => none
  | .operation op operands => op.countFailure? operands.length

theorem failure?_operationValue (i : Interpretation α) (op : Operation) (values : List α) :
    Result.failure? (i.operationValue op values) = op.countFailure? values.length := by
  unfold operationValue Operation.countFailure?
  split_ifs <;> rfl

/-- At a point with all coordinates a formula fails like the first of its nodes that does, where
operands come before the operation. -/
theorem failure?_evaluate (i : Interpretation α) {point : List α}
    (hPoint : Coordinate.all.length ≤ point.length) (f : Formula) :
    Result.failure? (i.evaluate point f) = f.postorder.findSome? i.nodeFailure? := by
  induction f with
  | constant value => exact List.findSome?_singleton.symm
  | coordinate which =>
      have hIndex : which.index < point.length := Nat.lt_of_lt_of_le which.index_lt hPoint
      have hValue : i.evaluate point (.coordinate which) = .ok point[which.index] :=
        evaluate_coordinate_eq_ok.mpr (List.getElem?_eq_getElem hIndex)
      rw [hValue]
      rfl
  | operation op operands ih =>
      have hOperands : Result.failure? ((operands.map (i.evaluate point)).mapM id) =
          (operands.map Formula.postorder).flatten.findSome? i.nodeFailure? := by
        rw [Result.failure?_mapM, List.findSome?_map]
        exact (findSome?_flatten ih).symm
      have hCount (values : List α)
          (hValues : (operands.map (i.evaluate point)).mapM id = .ok values) :
          Result.failure? (i.operationValue op values) =
            i.nodeFailure? (.operation op operands) := by
        have hLength := (Result.mapM_eq_ok.mp hValues).length_eq
        rw [List.length_map] at hLength
        rw [failure?_operationValue, ← hLength]
        rfl
      rw [evaluate_operation, Result.failure?_bind hCount, hOperands, Formula.postorder,
        Formula.arranged_operation, List.findSome?_append, List.findSome?_singleton]

end Interpretation

namespace Constant

/-- Only an integer that is rounded to an infinity has no value in double precision. -/
theorem machine_constant_eq_none_iff {value : Constant} :
    Interpretation.machine.constant value = none ↔
      ∃ n, value = .integer n ∧ Binary64.overflowBound ≤ n.natAbs := by
  rw [Interpretation.machine, Option.map_eq_none_iff]
  cases value with
  | integer n =>
      have hRange := Binary64.isFinite_ofInt_iff n
      rw [toBinary64?]
      cases hFinite : (Binary64.ofInt n).isFinite with
      | true => simpa [hFinite] using hRange
      | false => simpa [hFinite] using hRange
  | real x => simp [toBinary64?]

end Constant

namespace Formula

/-- A node that has no value in double precision whatever its operands are, and why: a wrong number
of operands, or an integer that is rounded beyond the largest finite number. -/
inductive HasNoValue : Formula → Failure → Prop
  | count {op : Operation} {operands : List Formula} {count : Nat}
      (hArity : op.arity = .exactly count) (hOther : operands.length ≠ count) :
      HasNoValue (.operation op operands) (.operandCount op operands.length)
  | mean {op : Operation} (hArity : op.arity = .variadic) :
      HasNoValue (.operation op []) (.operandCount op 0)
  | integer {n : Int} (hLarge : Binary64.overflowBound ≤ n.natAbs) :
      HasNoValue (.constant (.integer n)) .integerTooLarge

theorem nodeFailure?_machine {node : Formula} {failure : Failure} :
    Interpretation.machine.nodeFailure? node = some failure ↔ node.HasNoValue failure := by
  cases node with
  | constant value =>
      have hFailure : Interpretation.machine.nodeFailure? (.constant value) = some failure ↔
          Interpretation.machine.constant value = none ∧ failure = .integerTooLarge := by
        rw [Interpretation.nodeFailure?, Interpretation.constantValue]
        cases Interpretation.machine.constant value <;> simp [eq_comm]
      rw [hFailure, Constant.machine_constant_eq_none_iff]
      constructor
      · rintro ⟨⟨n, rfl, hLarge⟩, rfl⟩
        exact .integer hLarge
      · rintro (_ | _ | hLarge)
        exact ⟨⟨_, rfl, hLarge⟩, rfl⟩
  | coordinate which =>
      refine iff_of_false (fun hFailure => ?_) fun hNone => ?_
      · cases hFailure
      · cases hNone
  | operation op operands =>
      rw [Interpretation.nodeFailure?, Operation.countFailure?_eq_some_iff,
        Operation.admits_eq_false_iff]
      constructor
      · rintro ⟨⟨count, hArity, hOther⟩ | ⟨hArity, hNone⟩, rfl⟩
        · exact .count hArity hOther
        · obtain rfl := List.length_eq_zero_iff.mp hNone
          exact .mean hArity
      · rintro (⟨hArity, hOther⟩ | hArity)
        · exact ⟨.inl ⟨_, hArity, hOther⟩, rfl⟩
        · exact ⟨.inr ⟨hArity, rfl⟩, rfl⟩

/-- Evaluation in double precision fails exactly when some node has a wrong number of operands, is
a mean without operands, or is an integer that is rounded beyond the largest finite number. The
failure is that of the first such node in post-order. The coordinates of the point do not matter,
and neither do the values of operands. -/
theorem value_eq_error_iff (f : Formula) (x y z : Float) :
    (∀ failure, f.value [x, y, z] = .error failure ↔
        FailsFirst HasNoValue f.postorder failure) ∧
      ((∃ failure, f.value [x, y, z] = .error failure) ↔
        ∃ node ∈ f.nodes .depthFirst, ∃ failure, node.HasNoValue failure) := by
  have hPoint : Coordinate.all.length ≤ [x, y, z].length := Nat.le_refl 3
  exact eq_error_iff_failsFirst (fun _ _ => nodeFailure?_machine)
    (Interpretation.failure?_evaluate _ hPoint f) (postorder_perm f)

end Formula

end Formulas

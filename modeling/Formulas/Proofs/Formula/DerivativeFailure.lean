import Formulas.Proofs.Formula.FirstFailure
import Formulas.Proofs.Formula.Rules

/-! Which formulas have no derivative, and why. The operands of an operation are counted before any
of them is differentiated, so the failure is that of the first bad node in pre-order. -/
namespace Formulas.Formula

/-- A node that has no derivative whatever its operands are, and why: a wrong number of operands,
or an arithmetic or geometric mean without operands. -/
inductive HasNoDerivative : Formula → Failure → Prop
  | count {op : Operation} {operands : List Formula} {count : Nat}
      (hArity : op.arity = .exactly count) (hOther : operands.length ≠ count) :
      HasNoDerivative (.operation op operands) (.operandCount op operands.length)
  | arithMean : HasNoDerivative (.operation .arithMean []) (.operandCount .arithMean 0)
  | geomMean : HasNoDerivative (.operation .geomMean []) .divisionByZero

/-- The failure of the rule for a node, if there is one. -/
def ruleFailure? : Formula → Option Failure
  | .operation op operands => op.slopeFailure? operands.length
  | _ => none

theorem ruleFailure?_eq_some_iff {node : Formula} {failure : Failure} :
    node.ruleFailure? = some failure ↔ node.HasNoDerivative failure := by
  constructor
  · intro hFailure
    cases node with
    | constant value => cases hFailure
    | coordinate which => cases hFailure
    | operation op operands =>
        rw [ruleFailure?, Operation.slopeFailure?] at hFailure
        cases hArity : op.arity with
        | exactly count =>
            rw [hArity, Option.ite_none_left_eq_some, Option.some.injEq] at hFailure
            obtain ⟨hOther, rfl⟩ := hFailure
            exact .count hArity hOther
        | variadic =>
            rw [hArity, Option.ite_none_left_eq_some] at hFailure
            obtain ⟨hNoRule, hFailure⟩ := hFailure
            obtain rfl : operands = [] := by
              rw [← List.length_eq_zero_iff]
              omega
            cases op with
            | arithMean => exact Option.some.inj hFailure ▸ .arithMean
            | geomMean => exact Option.some.inj hFailure ▸ .geomMean
            | harmMean => exact absurd (.inr rfl) hNoRule
            | _ => cases hArity
  · rintro (⟨hArity, hOther⟩ | _ | _)
    · rw [ruleFailure?, Operation.slopeFailure?, hArity]
      exact if_neg hOther
    · rfl
    · rfl

/-- A formula fails like the first of its nodes for which there is no rule. -/
theorem failure?_derivative (name : String) (f : Formula) :
    Result.failure? (f.derivative name) = f.ruleOrder.findSome? ruleFailure? := by
  induction f with
  | constant value => rfl
  | coordinate which => rfl
  | operation op operands ih =>
      rw [ruleOrder, arranged_operation, List.findSome?_cons]
      cases hRule : op.slopeFailure? operands.length with
      | some failure =>
          rw [derivative_of_slopeFailure name hRule, ruleFailure?, hRule]
          rfl
      | none =>
          have hParts : (if op = .hmean then (operands.map ruleOrder).reverse
              else operands.map ruleOrder) = (op.slopeOrder operands).map ruleOrder :=
            Operation.slopeOrder_map op ruleOrder operands
          have hOperands : ∀ f ∈ op.slopeOrder operands,
              Result.failure? (jetBy name f) = f.ruleOrder.findSome? ruleFailure? := by
            intro f hf
            rw [← ih f (Operation.mem_slopeOrder.mp hf), jetBy_eq]
            cases f.derivative name <;> rfl
          rw [derivative_operation_eq name hRule, Result.failure?_bind_of_total fun _ => rfl,
            Result.failure?_mapM, ruleFailure?, hRule]
          exact hParts ▸ (findSome?_flatten hOperands).symm

/-- Differentiation applies one rule to each node. It fails exactly when some node has a wrong
number of operands, or is an arithmetic or geometric mean without operands. The failure is that of
the first such node in pre-order, where the second operand of a binary harmonic mean comes before
the first. A harmonic mean is no failure, not even without operands. -/
theorem derivative_eq_error_iff (name : String) (f : Formula) :
    f.differentiate name = f.derivative name ∧
      (∀ failure, f.derivative name = .error failure ↔
        FailsFirst HasNoDerivative f.ruleOrder failure) ∧
      ((∃ failure, f.derivative name = .error failure) ↔
        ∃ node ∈ f.nodes .depthFirst, ∃ failure, node.HasNoDerivative failure) ∧
      ∀ operands failure, ¬ HasNoDerivative (.operation .harmMean operands) failure := by
  obtain ⟨hFirst, hSome⟩ := eq_error_iff_failsFirst (fun _ _ => ruleFailure?_eq_some_iff)
    (failure?_derivative name f) (ruleOrder_perm f)
  refine ⟨differentiate_eq_derivative name f, hFirst, hSome, ?_⟩
  rintro operands failure (⟨hArity, -⟩)
  cases hArity

-- Of two bad operands of a binary harmonic mean the second is reported.
example : derivative "x" (.operation .hmean [.operation .add [], .operation .geomMean []]) =
    .error .divisionByZero := rfl

end Formulas.Formula

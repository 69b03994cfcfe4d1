import Formulas.Proofs.Formula.Jet
import Mathlib.Algebra.Order.BigOperators.Group.List
import Mathlib.Algebra.Order.Group.Nat

/-! The rules of differentiation as they are applied to formulas. Each rule differentiates its
operands itself and in its own order, and the rule for a mean differentiates a formula that it
builds from all of them. This gives the same derivatives, and the same failures, as differentiating
all operands first and applying the rules to the results. -/
namespace Formulas.Formula

open scoped Natural

section
variable (a b first : Formula) (rest operands : List Formula)

def plus : Formula := .operation .add [a, b]

def minus : Formula := .operation .sub [a, b]

def times : Formula := .operation .mul [a, b]

def quotient : Formula := .operation .div [a, b]

def natural (n : Nat) : Formula := .constant (.integer n)

/-- The sum from left to right. -/
def total : Formula := rest.foldl plus first

/-- The product from left to right, with the share of each factor in front. -/
def sharedProduct : Formula :=
  times (.constant (.real (Binary64.round false 1 (rest.length + 1)))) (rest.foldl times first)

/-- The power of the geometric mean with one factor for each operand but the first. -/
def meanPower : Formula :=
  rest.foldl (fun power _ => times power (.operation .geomMean (first :: rest))) (natural 1)

/-- The number of operands over the sum of their reciprocals. -/
def countOverReciprocals : Formula :=
  quotient (natural operands.length)
    (operands.foldl (fun sum a => plus sum (quotient (natural 1) a)) (natural 0))

end

/-- A measure that falls from a formula to those that its rule differentiates. A mean counts for
all that is built from its operands. -/
def effort : Formula → Nat :=
  fold (fun _ => 1) (fun _ => 1) fun op efforts =>
    match op.arity with
    | .exactly _ => 1 + efforts.sum
    | .variadic => 4 + 3 * efforts.length + efforts.sum

theorem effort_of_exactly {op : Operation} {count : Nat} (hArity : op.arity = .exactly count)
    (operands : List Formula) :
    effort (.operation op operands) = 1 + (operands.map effort).sum := by
  rw [effort, fold_operation, hArity]

theorem effort_of_variadic {op : Operation} (hArity : op.arity = .variadic)
    (operands : List Formula) : effort (.operation op operands) =
      4 + 3 * operands.length + (operands.map effort).sum := by
  rw [effort, fold_operation, hArity, List.length_map]

theorem effort_lt_of_mem {op : Operation} {count : Nat} (hArity : op.arity = .exactly count)
    {f : Formula} {operands : List Formula} (hf : f ∈ operands) :
    effort f < effort (.operation op operands) := by
  have hLe : effort f ≤ (operands.map effort).sum :=
    List.single_le_sum (by simp) _ (List.mem_map_of_mem hf)
  rw [effort_of_exactly hArity]
  omega

theorem effort_pair {op : Operation} (hArity : op.arity = .exactly 2) (a b : Formula) :
    effort (.operation op [a, b]) = effort a + effort b + 1 := by
  rw [effort_of_exactly hArity, List.map_cons, List.map_cons, List.map_nil, List.sum_cons,
    List.sum_cons, List.sum_nil]
  omega

/-- What is folded up takes the effort of its parts and the same effort more for each of them. -/
theorem effort_foldl {combine : Formula → Formula → Formula} {more : Nat}
    (hCombine : ∀ a b, effort (combine a b) = effort a + effort b + more) (first : Formula)
    (rest : List Formula) :
    effort (rest.foldl combine first) =
      effort first + (rest.map effort).sum + more * rest.length := by
  induction rest generalizing first with
  | nil => simp
  | cons next rest ih =>
      rw [List.foldl_cons, ih, hCombine, List.map_cons, List.sum_cons, List.length_cons,
        Nat.mul_succ]
      omega

theorem effort_total_lt (first : Formula) (rest : List Formula) :
    effort (total first rest) < effort (.operation .arithMean (first :: rest)) := by
  have hPlus (a b : Formula) : effort (plus a b) = effort a + effort b + 1 := effort_pair rfl a b
  rw [total, effort_foldl hPlus, effort_of_variadic rfl, List.map_cons, List.sum_cons,
    List.length_cons]
  omega

theorem effort_sharedProduct_lt (first : Formula) (rest : List Formula) :
    effort (sharedProduct first rest) < effort (.operation .geomMean (first :: rest)) := by
  have hTimes (a b : Formula) : effort (times a b) = effort a + effort b + 1 :=
    effort_pair rfl a b
  rw [sharedProduct, hTimes, effort_foldl hTimes, effort_of_variadic rfl, List.map_cons,
    List.sum_cons, List.length_cons]
  show 1 + _ + 1 < _
  omega

theorem effort_countOverReciprocals_lt (operands : List Formula) :
    effort (countOverReciprocals operands) < effort (.operation .harmMean operands) := by
  have hReciprocal (sum a : Formula) :
      effort (plus sum (quotient (natural 1) a)) = effort sum + effort a + 3 := by
    rw [plus, quotient, effort_pair rfl, effort_pair rfl]
    show effort sum + (1 + _ + 1) + 1 = _
    omega
  rw [countOverReciprocals, quotient, effort_pair rfl, effort_foldl hReciprocal,
    effort_of_variadic rfl]
  show 1 + (1 + _ + _) + 1 < _
  omega

/-- The derivative by the coordinate of the given name, rule by rule. -/
def differentiate (name : String) : Formula → Except Failure Formula
  | .constant _ => .ok (natural 0)
  | .coordinate which => .ok (natural (if which.name = name then 1 else 0))
  | .operation .add [a, b] => do
    let a' ← differentiate name a
    let b' ← differentiate name b
    .ok (plus a' b')
  | .operation .sub [a, b] => do
    let a' ← differentiate name a
    let b' ← differentiate name b
    .ok (minus a' b')
  | .operation .mul [a, b] => do
    let a' ← differentiate name a
    let b' ← differentiate name b
    .ok (plus (times a' b) (times a b'))
  | .operation .div [a, b] => do
    let a' ← differentiate name a
    let b' ← differentiate name b
    .ok (quotient (minus (times a' b) (times a b')) (times b b))
  | .operation .hypot [a, b] => do
    let a' ← differentiate name a
    let b' ← differentiate name b
    .ok (times (natural 2) (plus (times a a') (times b b')))
  | .operation .hmean [a, b] => do
    -- The sum starts with the derivative of the second operand.
    let b' ← differentiate name b
    let a' ← differentiate name a
    .ok (times (natural 2) (quotient (plus (times (times a a) b') (times (times b b) a'))
      (times (plus a b) (plus a b))))
  | .operation .negate [a] => do
    let a' ← differentiate name a
    .ok (.operation .negate [a'])
  | .operation .arithMean (first :: rest) => do
    let total' ← differentiate name (total first rest)
    .ok (quotient total' (natural (rest.length + 1)))
  | .operation .geomMean [] => .error .divisionByZero
  | .operation .geomMean (first :: rest) => do
    let product' ← differentiate name (sharedProduct first rest)
    .ok (quotient product' (meanPower first rest))
  | .operation .harmMean operands => differentiate name (countOverReciprocals operands)
  | .operation op operands => .error (.operandCount op operands.length)
termination_by f => f.effort
decreasing_by
  -- The rules without a mean differentiate their operands.
  iterate 13 exact effort_lt_of_mem rfl (by simp)
  · exact effort_total_lt first rest
  · exact effort_sharedProduct_lt first rest
  · exact effort_countOverReciprocals_lt operands

variable (name : String)

/-- A formula together with its derivative. -/
def jetBy (f : Formula) : Except Failure Jet :=
  jet (f, f.derivative name)

theorem jetBy_eq (f : Formula) : jetBy name f = (f.derivative name).map (Jet.mk f) := by
  rw [jetBy, jet]
  cases f.derivative name <;> rfl

theorem map_slope_jetBy (f : Formula) : (jetBy name f).map Jet.slope = f.derivative name := by
  rw [jetBy_eq]
  cases f.derivative name <;> rfl

theorem eq_value_of_jetBy {f : Formula} {j : Jet} (hJet : jetBy name f = .ok j) : f = j.value := by
  rw [jetBy_eq] at hJet
  obtain ⟨slope, -, rfl⟩ := Result.map_eq_ok.mp hJet
  rfl

theorem eq_map_value_of_jetBy {operands : List Formula} {jets : List Jet}
    (hJets : operands.mapM (jetBy name) = .ok jets) : operands = jets.map Jet.value := by
  have hValues := (Result.mapM_eq_ok.mp hJets).imp fun _ _ => eq_value_of_jetBy name
  rwa [← List.forall₂_eq_eq_eq, List.forall₂_map_right_iff]

theorem derivative_of_slopeFailure {op : Operation} {operands : List Formula} {failure : Failure}
    (hRule : op.slopeFailure? operands.length = some failure) :
    derivative name (.operation op operands) = .error failure := by
  rw [derivative_operation]
  simp only [operationDerivative, List.length_map, hRule]

/-- An operation that can be differentiated is differentiated after its operands. -/
theorem derivative_operation_eq {op : Operation} {operands : List Formula}
    (hRule : op.slopeFailure? operands.length = none) :
    derivative name (.operation op operands) = (do
      let jets ← (op.slopeOrder operands).mapM (jetBy name)
      .ok (Jet.operationSlope op (op.slopeOrder jets))) := by
  rw [derivative_operation]
  simp only [operationDerivative, List.length_map, hRule, Operation.slopeOrder_map]
  rw [List.mapM_map]
  rfl

/-- All operations but the binary harmonic mean take their operands from left to right. -/
theorem derivative_inOrder (op : Operation) (hOrder : op ≠ .hmean) {operands : List Formula}
    (hRule : op.slopeFailure? operands.length = none) :
    derivative name (.operation op operands) = (do
      let jets ← operands.mapM (jetBy name)
      .ok (Jet.operationSlope op jets)) := by
  rw [derivative_operation_eq name hRule]
  simp only [Operation.slopeOrder, if_neg hOrder]

/-- The first operand of a binary operation is differentiated first, the harmonic mean apart. -/
theorem derivative_pair (op : Operation) (hArity : op.arity = .exactly 2) (hOrder : op ≠ .hmean)
    (a b : Formula) : derivative name (.operation op [a, b]) = (do
      let a' ← a.derivative name
      let b' ← b.derivative name
      .ok (Jet.operationSlope op [⟨a, a'⟩, ⟨b, b'⟩])) := by
  have hRule : op.slopeFailure? [a, b].length = none :=
    Operation.slopeFailure?_of_admits ((Operation.admits_of_exactly hArity).mpr rfl)
  rw [derivative_inOrder name op hOrder hRule]
  simp only [List.mapM_cons, List.mapM_nil, jetBy_eq]
  cases a.derivative name <;> cases b.derivative name <;> rfl

theorem jetBy_pair (op : Operation) (hArity : op.arity = .exactly 2) (hOrder : op ≠ .hmean)
    (a b : Formula) : jetBy name (.operation op [a, b]) = (do
      let j ← jetBy name a
      let k ← jetBy name b
      .ok ⟨.operation op [j.value, k.value], Jet.operationSlope op [j, k]⟩) := by
  simp only [jetBy_eq, derivative_pair name op hArity hOrder]
  cases a.derivative name <;> cases b.derivative name <;> rfl

theorem jetBy_plus (a b : Formula) : jetBy name (plus a b) = (do
    let j ← jetBy name a
    let k ← jetBy name b
    .ok (j.add k)) :=
  jetBy_pair name .add rfl nofun a b

theorem jetBy_times (a b : Formula) : jetBy name (times a b) = (do
    let j ← jetBy name a
    let k ← jetBy name b
    .ok (j.mul k)) :=
  jetBy_pair name .mul rfl nofun a b

theorem jetBy_quotient (a b : Formula) : jetBy name (quotient a b) = (do
    let j ← jetBy name a
    let k ← jetBy name b
    .ok (j.div k)) :=
  jetBy_pair name .div rfl nofun a b

/-- A formula that is folded up from others is differentiated after them, from the first to the
last, when this holds of each step. -/
theorem jetBy_foldl {combine : Formula → Formula → Formula} {step : Jet → Jet → Jet}
    (hStep : ∀ a b, jetBy name (combine a b) = (do
      let j ← jetBy name a
      let k ← jetBy name b
      .ok (step j k))) (first : Formula) (rest : List Formula) :
    jetBy name (rest.foldl combine first) = (do
      let j ← jetBy name first
      let jets ← rest.mapM (jetBy name)
      .ok (jets.foldl step j)) := by
  induction rest generalizing first with
  | nil => cases hFirst : jetBy name first <;> simp [hFirst, pure, Except.pure]
  | cons next rest ih =>
      rw [List.foldl_cons, ih, hStep, List.mapM_cons]
      cases jetBy name first with
      | error e => rfl
      | ok j =>
          cases jetBy name next with
          | error e => rfl
          | ok k => cases rest.mapM (jetBy name) <;> rfl

/-- The sum of all operands is differentiated where the operands are. -/
theorem derivative_via_total (first : Formula) (rest : List Formula) :
    derivative name (.operation .arithMean (first :: rest)) = (do
      let total' ← (total first rest).derivative name
      .ok (quotient total' (natural (rest.length + 1)))) := by
  rw [← map_slope_jetBy name (total first rest), total, jetBy_foldl name (jetBy_plus name),
    derivative_inOrder name .arithMean nofun (by rfl), List.mapM_cons]
  cases jetBy name first with
  | error e => rfl
  | ok j =>
      cases hRest : rest.mapM (jetBy name) with
      | error e => rfl
      | ok jets =>
          rw [eq_map_value_of_jetBy name hRest, List.length_map]
          rfl

/-- So is the product of all operands, and its share is a constant. -/
theorem derivative_via_product (first : Formula) (rest : List Formula) :
    derivative name (.operation .geomMean (first :: rest)) = (do
      let product' ← (sharedProduct first rest).derivative name
      .ok (quotient product' (meanPower first rest))) := by
  rw [← map_slope_jetBy name (sharedProduct first rest), sharedProduct, jetBy_times,
    jetBy_foldl name (jetBy_times name), derivative_inOrder name .geomMean nofun (by rfl),
    List.mapM_cons]
  cases hFirst : jetBy name first with
  | error e => rfl
  | ok j =>
      cases hRest : rest.mapM (jetBy name) with
      | error e => rfl
      | ok jets =>
          rw [eq_value_of_jetBy name hFirst, eq_map_value_of_jetBy name hRest, meanPower,
            List.length_map, List.foldl_map]
          rfl

/-- And so is the sum of all reciprocals, which starts with a constant. -/
theorem derivative_via_quotient (operands : List Formula) :
    derivative name (.operation .harmMean operands) =
      (countOverReciprocals operands).derivative name := by
  have hReciprocal (sum a : Formula) : jetBy name (plus sum (quotient (natural 1) a)) = (do
      let j ← jetBy name sum
      let k ← jetBy name a
      .ok (j.add ((Jet.integer 1).div k))) := by
    rw [jetBy_plus, jetBy_quotient]
    cases jetBy name sum <;> cases jetBy name a <;> rfl
  have hRule : Operation.harmMean.slopeFailure? operands.length = none := if_pos (.inr rfl)
  rw [← map_slope_jetBy name (countOverReciprocals operands), countOverReciprocals, jetBy_quotient,
    jetBy_foldl name hReciprocal, derivative_inOrder name .harmMean nofun hRule]
  cases hOperands : operands.mapM (jetBy name) with
  | error e => rfl
  | ok jets =>
      rw [eq_map_value_of_jetBy name hOperands, List.length_map]
      rfl

/-- The rules differentiate as if all operands were differentiated first. -/
theorem differentiate_eq_derivative (f : Formula) : f.differentiate name = f.derivative name := by
  fun_induction differentiate name f with
  | case1 => rfl
  | case2 which =>
      have hSlope : derivative name (.coordinate which) =
          .ok (.constant (.integer (if which.name = name then 1 else 0))) := rfl
      rw [hSlope]
      split_ifs <;> rfl
  | case3 a b hLeft hRight => rw [hLeft, hRight, derivative_pair name .add rfl nofun]; rfl
  | case4 a b hLeft hRight => rw [hLeft, hRight, derivative_pair name .sub rfl nofun]; rfl
  | case5 a b hLeft hRight => rw [hLeft, hRight, derivative_pair name .mul rfl nofun]; rfl
  | case6 a b hLeft hRight => rw [hLeft, hRight, derivative_pair name .div rfl nofun]; rfl
  | case7 a b hLeft hRight => rw [hLeft, hRight, derivative_pair name .hypot rfl nofun]; rfl
  | case8 a b hRight hLeft =>
      have hOrder : Operation.hmean.slopeOrder [a, b] = [b, a] := rfl
      rw [hRight, hLeft, derivative_operation_eq name (by rfl), hOrder]
      simp only [List.mapM_cons, List.mapM_nil, jetBy_eq]
      cases b.derivative name <;> cases a.derivative name <;> rfl
  | case9 a hOperand =>
      rw [hOperand, derivative_inOrder name .negate nofun (by rfl)]
      simp only [List.mapM_cons, List.mapM_nil, jetBy_eq]
      cases a.derivative name <;> rfl
  | case10 first rest hTotal => rw [hTotal, derivative_via_total]
  | case11 => rfl
  | case12 first rest hProduct => rw [hProduct, derivative_via_product]
  | case13 operands hQuotient => rw [hQuotient, derivative_via_quotient]
  | case14 op operands =>
      -- What is left are the numbers of operands that no rule takes.
      refine (derivative_of_slopeFailure name ?_).symm
      cases op with
      | arithMean | geomMean =>
          cases operands <;> simp_all [Operation.slopeFailure?, Operation.arity]
      | harmMean => contradiction
      | negate => simp_all [Operation.slopeFailure?, Operation.arity, List.length_eq_one_iff]
      | _ => simp_all [Operation.slopeFailure?, Operation.arity, List.length_eq_two]

end Formulas.Formula

import Formulas.Proofs.Formula.Jet
import Formulas.Proofs.Formula.Shape

/-! Properties that derivatives inherit from their formulas. The rules build nothing but
small integers, operations of fixed arity, and for a mean the number of its operands and its
reciprocal, so a property that these have and that operands inherit is never lost. -/
namespace Formulas

/-- What the rules build has the property where the operation that they start from has it. -/
structure KeptByRules (P : Formula → Prop) : Prop where
  integer (n : Nat) (hSmall : n ≤ 2) : P (.constant (.integer n))
  operand {op : Operation} {operands : List Formula} :
    P (.operation op operands) → ∀ f ∈ operands, P f
  operation {op : Operation} {operands : List Formula} :
    op.arity = .exactly operands.length → (∀ f ∈ operands, P f) → P (.operation op operands)
  count {op : Operation} {operands : List Formula} : op.arity = .variadic → operands ≠ [] →
    P (.operation op operands) → P (.constant (.integer operands.length)) ∧
      P (.constant (.real (Binary64.round false 1 operands.length)))

namespace Jet

/-- The formula and its derivative have the property. -/
structure Has (P : Formula → Prop) (j : Jet) : Prop where
  value : P j.value
  slope : P j.slope

end Jet

namespace KeptByRules

open Jet (Has)

variable {P : Formula → Prop} (hKept : KeptByRules P) {j k : Jet} {jets : List Jet}
  {f g : Formula}
include hKept

theorem pair {op : Operation} (hArity : op.arity = .exactly 2) (hf : P f) (hg : P g) :
    P (.operation op [f, g]) :=
  hKept.operation hArity (List.forall_mem_cons.mpr ⟨hf, List.forall_mem_singleton.mpr hg⟩)

theorem addition (hf : P f) (hg : P g) : P (.operation .add [f, g]) :=
  hKept.pair rfl hf hg

theorem product (hf : P f) (hg : P g) : P (.operation .mul [f, g]) :=
  hKept.pair rfl hf hg

theorem quotient (hf : P f) (hg : P g) : P (.operation .div [f, g]) :=
  hKept.pair rfl hf hg

theorem integer_jet {n : Nat} (hn : P (.constant (.integer n))) : Has P (Jet.integer n) :=
  ⟨hn, hKept.integer 0 (Nat.zero_le 2)⟩

theorem add (hj : Has P j) (hk : Has P k) : Has P (j.add k) where
  value := hKept.addition hj.value hk.value
  slope := hKept.addition hj.slope hk.slope

theorem mul (hj : Has P j) (hk : Has P k) : Has P (j.mul k) where
  value := hKept.product hj.value hk.value
  slope := hKept.addition (hKept.product hj.slope hk.value) (hKept.product hj.value hk.slope)

theorem div (hj : Has P j) (hk : Has P k) : Has P (j.div k) where
  value := hKept.quotient hj.value hk.value
  slope := hKept.quotient
    (hKept.pair rfl (hKept.product hj.slope hk.value) (hKept.product hj.value hk.slope))
    (hKept.product hk.value hk.value)

theorem hypotSlope (hj : Has P j) (hk : Has P k) : P (Jet.hypotSlope j k) :=
  hKept.product (hKept.integer 2 (Nat.le_refl 2))
    (hKept.addition (hKept.product hj.value hj.slope) (hKept.product hk.value hk.slope))

theorem hmeanSlope (hj : Has P j) (hk : Has P k) : P (Jet.hmeanSlope j k) := by
  have hSquares := hKept.addition
    (hKept.product (hKept.product hj.value hj.value) hk.slope)
    (hKept.product (hKept.product hk.value hk.value) hj.slope)
  have hSum := hKept.addition hj.value hk.value
  exact hKept.product (hKept.integer 2 (Nat.le_refl 2))
    (hKept.quotient hSquares (hKept.product hSum hSum))

omit hKept in
theorem fold {step : Jet → Jet → Jet} (hStep : ∀ {j k}, Has P j → Has P k → Has P (step j k))
    (hj : Has P j) (hJets : ∀ k ∈ jets, Has P k) : Has P (jets.foldl step j) := by
  induction jets generalizing j with
  | nil => exact hj
  | cons k rest ih =>
      obtain ⟨hk, hRest⟩ := List.forall_mem_cons.mp hJets
      exact ih (hStep hj hk) hRest

/-- The number of operands of a mean, and its reciprocal. -/
theorem count_of_jets {op : Operation} (hArity : op.arity = .variadic)
    (hMean : P (.operation op ((j :: jets).map Jet.value))) :
    P (.constant (.integer (jets.length + 1 : Nat))) ∧
      P (.constant (.real (Binary64.round false 1 (jets.length + 1)))) := by
  have hCount := hKept.count hArity (List.cons_ne_nil _ _) hMean
  rwa [List.length_cons, List.length_map] at hCount

theorem arithMeanSlope (hMean : P (.operation .arithMean ((j :: jets).map Jet.value)))
    (hj : Has P j) (hJets : ∀ k ∈ jets, Has P k) : P (Jet.arithMeanSlope j jets) :=
  hKept.quotient (fold hKept.add hj hJets).slope (hKept.count_of_jets rfl hMean).1

/-- A repeated product. -/
theorem power (hf : P f) (hg : P g) (jets : List Jet) :
    P (jets.foldl (fun power _ => .operation .mul [power, g]) f) := by
  induction jets generalizing f with
  | nil => exact hf
  | cons j rest ih => exact ih (hKept.product hf hg)

theorem geomMeanSlope (hMean : P (.operation .geomMean ((j :: jets).map Jet.value)))
    (hj : Has P j) (hJets : ∀ k ∈ jets, Has P k) : P (Jet.geomMeanSlope j jets) := by
  have hShare : Has P (Jet.real (Binary64.round false 1 (jets.length + 1))) :=
    ⟨(hKept.count_of_jets rfl hMean).2, hKept.integer 0 (Nat.zero_le 2)⟩
  exact hKept.quotient (hKept.mul hShare (fold hKept.mul hj hJets)).slope
    (hKept.power (hKept.integer 1 (by decide)) hMean jets)

theorem harmMeanSlope (hMean : P (.operation .harmMean ((j :: jets).map Jet.value)))
    (hJets : ∀ k ∈ j :: jets, Has P k) : P (Jet.harmMeanSlope (j :: jets)) := by
  have hOne := hKept.integer_jet (hKept.integer 1 (by decide))
  have hSum := fold (fun hj hk => hKept.add hj (hKept.div hOne hk))
    (hKept.integer_jet (hKept.integer 0 (Nat.zero_le 2))) hJets
  exact (hKept.div (hKept.integer_jet (hKept.count_of_jets rfl hMean).1) hSum).slope

/-- The derivative of an operation that has the property has it, if those of the operands do. -/
theorem operationSlope {op : Operation} (hAdmits : op.admits jets.length = true)
    (hOperation : P (.operation op (jets.map Jet.value))) (hSlopes : ∀ j ∈ jets, P j.slope) :
    P (Jet.operationSlope op jets) := by
  have hJets : ∀ j ∈ jets, Has P j := fun j hj =>
    ⟨hKept.operand hOperation _ (List.mem_map_of_mem hj), hSlopes j hj⟩
  cases op with
  | add =>
      obtain ⟨j, k, rfl⟩ := Operation.exists_pair rfl hAdmits
      exact (hKept.add (hJets j (by simp)) (hJets k (by simp))).slope
  | sub =>
      obtain ⟨j, k, rfl⟩ := Operation.exists_pair rfl hAdmits
      exact hKept.pair rfl (hSlopes j (by simp)) (hSlopes k (by simp))
  | mul =>
      obtain ⟨j, k, rfl⟩ := Operation.exists_pair rfl hAdmits
      exact (hKept.mul (hJets j (by simp)) (hJets k (by simp))).slope
  | div =>
      obtain ⟨j, k, rfl⟩ := Operation.exists_pair rfl hAdmits
      exact (hKept.div (hJets j (by simp)) (hJets k (by simp))).slope
  | hypot =>
      obtain ⟨j, k, rfl⟩ := Operation.exists_pair rfl hAdmits
      exact hKept.hypotSlope (hJets j (by simp)) (hJets k (by simp))
  | hmean =>
      obtain ⟨j, k, rfl⟩ := Operation.exists_pair rfl hAdmits
      exact hKept.hmeanSlope (hJets j (by simp)) (hJets k (by simp))
  | negate =>
      obtain ⟨j, rfl⟩ := Operation.exists_single rfl hAdmits
      exact hKept.operation rfl (List.forall_mem_singleton.mpr (hSlopes j (by simp)))
  | arithMean =>
      obtain ⟨j, rest, rfl⟩ := Operation.exists_cons hAdmits
      obtain ⟨hj, hRest⟩ := List.forall_mem_cons.mp hJets
      exact hKept.arithMeanSlope hOperation hj hRest
  | geomMean =>
      obtain ⟨j, rest, rfl⟩ := Operation.exists_cons hAdmits
      obtain ⟨hj, hRest⟩ := List.forall_mem_cons.mp hJets
      exact hKept.geomMeanSlope hOperation hj hRest
  | harmMean =>
      obtain ⟨j, rest, rfl⟩ := Operation.exists_cons hAdmits
      exact hKept.harmMeanSlope hOperation hJets

/-- A well-formed formula with the property has a derivative, and that has it as well. -/
theorem exists_derivative (name : String) (hWellFormed : f.isWellFormed = true) (hf : P f) :
    ∃ slope, f.derivative name = .ok slope ∧ P slope := by
  induction f with
  | constant value => exact ⟨_, rfl, hKept.integer 0 (Nat.zero_le 2)⟩
  | coordinate which =>
      refine ⟨_, rfl, ?_⟩
      split_ifs
      · exact hKept.integer 1 (by decide)
      · exact hKept.integer 0 (Nat.zero_le 2)
  | operation op operands ih =>
      obtain ⟨hAdmits, hOperands⟩ := Formula.isWellFormed_operation.mp hWellFormed
      obtain ⟨jets, rfl, hJets⟩ := Jet.exists_jets
        (fun j => j.value.derivative name = .ok j.slope ∧ P j.slope)
        fun f hOperand => ih f hOperand (hOperands f hOperand) (hKept.operand hf f hOperand)
      rw [List.length_map] at hAdmits
      exact ⟨_, Formula.derivative_of_jets hAdmits fun j hj => (hJets j hj).1,
        hKept.operationSlope hAdmits hf fun j hj => (hJets j hj).2⟩

end KeptByRules

/-- The conjunction of properties that are kept is kept. -/
theorem KeptByRules.and {P Q : Formula → Prop} (hLeft : KeptByRules P) (hRight : KeptByRules Q) :
    KeptByRules fun f => P f ∧ Q f where
  integer n hSmall := ⟨hLeft.integer n hSmall, hRight.integer n hSmall⟩
  operand hBoth f hf := ⟨hLeft.operand hBoth.1 f hf, hRight.operand hBoth.2 f hf⟩
  operation hArity hOperands := ⟨hLeft.operation hArity fun f hf => (hOperands f hf).1,
    hRight.operation hArity fun f hf => (hOperands f hf).2⟩
  count hArity hNonempty hBoth :=
    let ⟨hInteger, hShare⟩ := hLeft.count hArity hNonempty hBoth.1
    let ⟨hInteger', hShare'⟩ := hRight.count hArity hNonempty hBoth.2
    ⟨⟨hInteger, hInteger'⟩, hShare, hShare'⟩

/-- Tests of single nodes that allow the small integers and operations of fixed arity, and for
a mean its number of operands and the reciprocal of that. -/
theorem keptByRules_everywhere {constant : Constant → Bool} {operation : Operation → Nat → Bool}
    (hInteger : ∀ n : Nat, n ≤ 2 → constant (.integer n) = true)
    (hOperation : ∀ op count, op.arity = .exactly count → operation op count = true)
    (hCount : ∀ op count, op.arity = .variadic → 1 ≤ count → operation op count = true →
      constant (.integer count) = true ∧
        constant (.real (Binary64.round false 1 count)) = true) :
    KeptByRules fun f => f.everywhere constant operation = true where
  integer := hInteger
  operand hTest := (Formula.everywhere_operation.mp hTest).2
  operation hArity hOperands :=
    Formula.everywhere_operation.mpr ⟨hOperation _ _ hArity, hOperands⟩
  count hArity hNonempty hTest :=
    hCount _ _ hArity (List.length_pos_iff.mpr hNonempty) (Formula.everywhere_operation.mp hTest).1

theorem keptByRules_isWellFormed : KeptByRules fun f => f.isWellFormed = true :=
  keptByRules_everywhere (fun _ _ => rfl)
    (fun _ _ hArity => (Operation.admits_of_exactly hArity).mpr rfl) fun _ _ _ _ _ => ⟨rfl, rfl⟩

/-- A well-formed formula has a derivative by every name. -/
theorem Formula.exists_derivative {f : Formula} (hWellFormed : f.isWellFormed = true)
    (name : String) : ∃ slope, f.derivative name = .ok slope :=
  (keptByRules_isWellFormed.exists_derivative name hWellFormed hWellFormed).imp fun _ => And.left

end Formulas

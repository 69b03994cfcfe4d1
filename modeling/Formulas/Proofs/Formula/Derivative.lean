import Formulas.Proofs.Arithmetic.Exact
import Formulas.Proofs.Formula.Closure
import Formulas.Proofs.Formula.Slope
import Formulas.Proofs.Formula.Totality

/-! Derivatives of formulas are exact. Wherever a formula without geometric means has a
value in rational arithmetic, its derivative has one, and that is the slope of the formula
in dual numbers. The same holds over every arithmetic that contains a ring. -/
namespace Formulas

open Arithmetic
open scoped DualNumber

/-- The coordinates of a point as dual numbers, of which only that of the given name changes. -/
def Coordinate.seeds {α : Type} [Arithmetic α] (name : String) (point : List α) :
    List (Dual α) :=
  List.zipWith (fun which a => ⟨a, Arithmetic.ofNat (if which.name = name then 1 else 0)⟩) all point

/-- Related lists whose right members all come from elsewhere. -/
theorem exists_map_of_forall₂ {A B C : Type} {P : A → B → Prop} {Q : A → C → Prop} {g : C → B}
    {as : List A} {bs : List B} (hRelated : List.Forall₂ P as bs)
    (hEach : ∀ a ∈ as, ∀ b ∈ bs, P a b → ∃ c, g c = b ∧ Q a c) :
    ∃ cs, cs.map g = bs ∧ List.Forall₂ Q as cs := by
  have hSplit : ∀ a ∈ as, ∀ b ∈ bs, P a b → ∃ c, Q a c ∧ g c = b := by
    intro a ha b hb hPair
    obtain ⟨c, hImage, hNew⟩ := hEach a ha b hb hPair
    exact ⟨c, hNew, hImage⟩
  obtain ⟨cs, hNew, hImages⟩ := Result.exists_between_of_forall₂ hRelated hSplit
  rw [← List.forall₂_map_left_iff, List.forall₂_eq_eq_eq] at hImages
  exact ⟨cs, hImages, hNew⟩

namespace Formula

/-- No operation is a geometric mean. -/
def isRootFree : Formula → Bool :=
  everywhere (fun _ => true) fun op _ => op ≠ .geomMean

theorem isRootFree_operation {op : Operation} {operands : List Formula} :
    isRootFree (.operation op operands) = true ↔
      op ≠ .geomMean ∧ ∀ f ∈ operands, f.isRootFree = true := by
  rw [isRootFree, everywhere_operation, decide_eq_true_iff]

/-- The rate of change of a coordinate, or of a constant. -/
def leafSlope (name : String) : Formula → Nat
  | .coordinate which => if which.name = name then 1 else 0
  | _ => 0

theorem derivative_leaf (name : String) {f : Formula} (hLeaf : f.isOperation = false) :
    f.derivative name = .ok (.constant (.integer (f.leafSlope name))) := by
  cases f with
  | constant value => rfl
  | coordinate which => simp [derivative, withDerivative, fold, leafSlope]
  | operation op operands => exact Bool.noConfusion hLeaf

end Formula

namespace Interpretation

theorem isOver_exact : exact.IsOver some where
  contains := contains_exact
  operation := rfl
  integer n := congrArg (fun a : ℚ => some (some a)) (Int.cast_natCast n)
  constant hConstant := by
    obtain ⟨q, -, rfl⟩ := Option.map_eq_some_iff.mp hConstant
    exact ⟨q, rfl⟩

variable {R α : Type} [CommRing R] [Arithmetic α] {i : Interpretation α} {number : R → α}
  {point : List α} {name : String} {f : Formula} {r : R}

/-- A formula without roots has a value in a ring from which there is a local homomorphism to
the ring of its value, if its leaves have such values. -/
theorem IsOver.exists_lift {S β : Type} [CommRing S] [Arithmetic β] {i' : Interpretation β}
    {number' : S → β} {point' : List β} (hOver : i.IsOver number) (hOver' : i'.IsOver number')
    (ρ : S →+* R) [IsLocalHom ρ]
    (hLeaves : ∀ g p, g.isOperation = false → i.evaluate point g = .ok (number p) →
      ∃ s, ρ s = p ∧ i'.evaluate point' g = .ok (number' s))
    (hRootFree : f.isRootFree = true) (hValue : i.evaluate point f = .ok (number r)) :
    ∃ t, ρ t = r ∧ i'.evaluate point' f = .ok (number' t) := by
  induction f generalizing r with
  | constant value => exact hLeaves _ r rfl hValue
  | coordinate which => exact hLeaves _ r rfl hValue
  | operation op operands ih =>
      obtain ⟨hNoRoot, hOperands⟩ := Formula.isRootFree_operation.mp hRootFree
      obtain ⟨ps, hValues, hGives⟩ := (hOver.evaluate_operation_eq hNoRoot).mp hValue
      obtain ⟨ss, rfl, hLifted⟩ := exists_map_of_forall₂ hValues fun g hg p _ hOperand =>
        ih g hg (hOperands g hg) hOperand
      obtain ⟨t, rfl, hLift⟩ := hGives.lift ρ
      exact ⟨t, rfl, hOver'.evaluate_of_gives hLift hLifted⟩

/-- The value of a leaf in dual numbers. -/
theorem evaluate_dual_leaf (i : Interpretation α) (name : String) (point : List α)
    (hLeaf : f.isOperation = false) : i.dual.evaluate (Coordinate.seeds name point) f =
      (i.evaluate point f).map fun a => ⟨a, ofNat (f.leafSlope name)⟩ := by
  cases f with
  | constant value =>
      show i.dual.constantValue value = (i.constantValue value).map _
      cases hValue : i.constant value <;> simp [constantValue, dual, hValue, Formula.leafSlope]
  | coordinate which =>
      show coordinateValue _ which = (coordinateValue point which).map _
      have hColumn : Coordinate.all[which.index]? = some which := by cases which <;> rfl
      rw [coordinateValue, coordinateValue, Coordinate.seeds, List.getElem?_zipWith, hColumn]
      cases hValue : point[which.index]? <;> rfl
  | operation op operands => exact Bool.noConfusion hLeaf

theorem IsOver.evaluate_dual_leaf (hOver : i.IsOver number) {z : R[ε]}
    (hLeaf : f.isOperation = false) (hValue : i.evaluate point f = .ok (number z.fst))
    (hSlope : z.snd = f.leafSlope name) :
    i.dual.evaluate (Coordinate.seeds name point) f = .ok (Dual.pair number z) := by
  rw [Interpretation.evaluate_dual_leaf i name point hLeaf, hValue, Result.map_ok,
    hOver.contains.ofNat, ← hSlope]
  rfl

end Interpretation

namespace Formula

variable {R α : Type} [CommRing R] [Arithmetic α] {i : Interpretation α} {number : R → α}
  {point : List α} {name : String} {f : Formula}

/-- The operands of an operation that has a value have values and derivatives, and the derivative
of the operation is made of these. -/
theorem exists_jets_of_evaluate (hOver : i.IsOver number) (hRoots : ReflectsRoots number)
    (name : String) {op : Operation} {operands : List Formula} {r : R}
    (hValue : i.evaluate point (.operation op operands) = .ok (number r)) :
    ∃ jets : List Jet, jets.map Jet.value = operands ∧
      derivative name (.operation op operands) = .ok (Jet.operationSlope op jets) ∧
      ∀ j ∈ jets, j.slope ∈ (Jet.operationSlope op jets).nodes .depthFirst ∧
        j.value.derivative name = .ok j.slope ∧
        ∃ p, i.evaluate point j.value = .ok (number p) := by
  obtain ⟨hAdmits, hOperands⟩ :=
    isWellFormed_operation.mp (Interpretation.isWellFormed_of_evaluate hValue)
  obtain ⟨ps, hValues⟩ := hOver.evaluate_operands hRoots hValue
  obtain ⟨jets, rfl, hJets⟩ := Jet.exists_jets (fun j => j.value.derivative name = .ok j.slope)
    fun f hf => exists_derivative (hOperands f hf) name
  rw [List.length_map] at hAdmits
  exact ⟨jets, rfl, derivative_of_jets hAdmits hJets, fun j hj =>
    ⟨Jet.slope_mem_operationSlope hAdmits j hj, hJets j hj,
      Result.exists_of_forall₂ hValues _ (List.mem_map_of_mem hj)⟩⟩

/-- The formula has a derivative, and a dual number, which is the value of the formula in
dual numbers, holds the values of the two at the point. -/
structure IsDifferentiable (i : Interpretation α) (number : R → α) (name : String)
    (point : List α) (j : Jet) (z : R[ε]) : Prop where
  derivative : j.value.derivative name = .ok j.slope
  represents : j.Represents i number point z
  dual : i.dual.evaluate (Coordinate.seeds name point) j.value = .ok (Dual.pair number z)

theorem isDifferentiable_leaf (hOver : i.IsOver number) {z : R[ε]} (hLeaf : f.isOperation = false)
    (hDual : i.dual.evaluate (Coordinate.seeds name point) f = .ok (Dual.pair number z)) :
    IsDifferentiable i number name point ⟨f, .constant (.integer (f.leafSlope name))⟩ z := by
  have hPair := hDual
  rw [Interpretation.evaluate_dual_leaf i name point hLeaf] at hPair
  obtain ⟨_, hValue, hPair⟩ := Result.map_eq_ok.mp hPair
  obtain ⟨rfl, hSlope⟩ := Dual.mk.inj hPair
  refine ⟨derivative_leaf name hLeaf, ⟨hValue, ?_⟩, hDual⟩
  rw [← hSlope, hOver.contains.ofNat]
  exact hOver.evaluate_integer _

/-- A formula without roots that has a value in dual numbers has a derivative, and this has
the slope as its value. -/
theorem exists_isDifferentiable_of_dual (hOver : i.IsOver number) (hRootFree : f.isRootFree = true)
    {z : R[ε]}
    (hDual : i.dual.evaluate (Coordinate.seeds name point) f = .ok (Dual.pair number z)) :
    ∃ slope, IsDifferentiable i number name point ⟨f, slope⟩ z := by
  induction f generalizing z with
  | constant value => exact ⟨_, isDifferentiable_leaf hOver rfl hDual⟩
  | coordinate which => exact ⟨_, isDifferentiable_leaf hOver rfl hDual⟩
  | operation op operands ih =>
      obtain ⟨hNoRoot, hOperands⟩ := isRootFree_operation.mp hRootFree
      obtain ⟨zs, hValues, hGives⟩ := (hOver.dual.evaluate_operation_eq hNoRoot).mp hDual
      have hEach (z : R[ε]) (g : Formula) (hg : g ∈ operands)
          (hOperand : i.dual.evaluate (Coordinate.seeds name point) g = .ok (Dual.pair number z)) :
          ∃ j : Jet, j.value = g ∧ IsDifferentiable i number name point j z := by
        obtain ⟨slope, hJet⟩ := ih g hg (hOperands g hg) hOperand
        exact ⟨⟨g, slope⟩, rfl, hJet⟩
      obtain ⟨jets, rfl, hJets⟩ := exists_map_of_forall₂ hValues.flip fun z _ => hEach z
      have hBoth : List.Forall₂ (fun j z => j.value.derivative name = .ok j.slope ∧
          j.Represents i number point z) jets zs :=
        hJets.flip.imp fun _ _ hJet => ⟨hJet.derivative, hJet.represents⟩
      obtain ⟨hDerivatives, hRepresents⟩ := (List.forall₂_and_left jets zs).mp hBoth
      have hAdmits : op.admits jets.length = true := hJets.length_eq ▸ hGives.admits
      exact ⟨Jet.operationSlope op jets, derivative_of_jets hAdmits hDerivatives,
        Jet.Represents.operation hOver hRepresents hGives, hDual⟩

/-- A formula without roots that has a value in a ring has one in the dual numbers over it. -/
theorem exists_dual (name : String) (hOver : i.IsOver number) (hRootFree : f.isRootFree = true)
    {r : R} (hValue : i.evaluate point f = .ok (number r)) : ∃ z : R[ε], z.fst = r ∧
      i.dual.evaluate (Coordinate.seeds name point) f = .ok (Dual.pair number z) := by
  refine hOver.exists_lift hOver.dual (TrivSqZeroExt.fstHom R R R).toRingHom ?_ hRootFree hValue
  intro g p hLeaf hLeafValue
  exact ⟨(p, (g.leafSlope name : R)), rfl, hOver.evaluate_dual_leaf hLeaf hLeafValue rfl⟩

theorem exists_isDifferentiable (name : String) (hOver : i.IsOver number)
    (hRootFree : f.isRootFree = true) {r : R} (hValue : i.evaluate point f = .ok (number r)) :
    ∃ slope z, IsDifferentiable i number name point ⟨f, slope⟩ z := by
  obtain ⟨z, -, hDual⟩ := exists_dual name hOver hRootFree hValue
  obtain ⟨slope, hDifferentiable⟩ := exists_isDifferentiable_of_dual hOver hRootFree hDual
  exact ⟨slope, z, hDifferentiable⟩

/-- Wherever a formula without geometric means has an exact value, so has its derivative by
any coordinate, and the value of the derivative is the slope of the formula in dual numbers.
A formula that has a value is well formed, and all its constants are finite. -/
theorem derivative_exact {f : Formula} (name : String) (point : List ℚ) {q : ℚ}
    (hRootFree : f.isRootFree = true)
    (hDefined : Interpretation.exact.evaluate (point.map some) f = .ok (some q)) :
    ∃ slope r, f.derivative name = .ok slope ∧
      Interpretation.exact.evaluate (point.map some) slope = .ok (some r) ∧
      Interpretation.exact.dual.evaluate (Coordinate.seeds name (point.map some)) f =
        .ok ⟨some q, some r⟩ := by
  obtain ⟨slope, z, hDifferentiable⟩ :=
    exists_isDifferentiable name Interpretation.isOver_exact hRootFree hDefined
  have hValue := hDifferentiable.represents.value
  obtain rfl : z.fst = q := Option.some.inj (Except.ok.inj (hValue.symm.trans hDefined))
  exact ⟨slope, z.snd, hDifferentiable.derivative, hDifferentiable.represents.slope,
    hDifferentiable.dual⟩

/-- The harmonic mean of a coordinate and half of another one, by the first. -/
theorem derivative_exact_harmMean :
    let f : Formula := .operation .harmMean
      [.coordinate .x, .operation .div [.coordinate .y, .constant (.integer 2)]]
    let point : List ℚ := [3, 4, 5]
    (f.isRootFree = true ∧
        Interpretation.exact.evaluate (point.map some) f = .ok (some (12 / 5))) ∧
      ∃ slope r, f.derivative "x" = .ok slope ∧
        Interpretation.exact.evaluate (point.map some) slope = .ok (some r) ∧
        Interpretation.exact.dual.evaluate (Coordinate.seeds "x" (point.map some)) f =
          .ok ⟨some (12 / 5), some r⟩ :=
  ⟨⟨by decide +kernel, by decide +kernel⟩,
    derivative_exact "x" [3, 4, 5] (by decide +kernel) (by decide +kernel)⟩

end Formula

end Formulas

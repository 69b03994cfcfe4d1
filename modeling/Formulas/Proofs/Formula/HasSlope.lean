import Formulas.Proofs.Formula.Derivative

/-! Formulas that have values together with their derivatives. The operands of such a formula are of
the same kind. The derivative of a formula without geometric means has the exact slope as its value,
and so has that of an operation without roots if the derivatives of its operands have. -/
namespace Formulas

open scoped DualNumber

namespace Formula

variable {R α : Type} [CommRing R] [Arithmetic α] {i : Interpretation α} {number : R → α}
  {name : String} {point : List α} {f : Formula} {z : R[ε]}

/-- At the point the formula and its derivative have the parts of the dual number as values. -/
def HasSlope (i : Interpretation α) (number : R → α) (name : String) (point : List α) (f : Formula)
    (z : R[ε]) : Prop :=
  ∃ slope, f.derivative name = .ok slope ∧ Jet.Represents i number point ⟨f, slope⟩ z

/-- At the point the formula itself has the dual number as its value. Of the coordinates only that
of the given name changes. -/
def HasExactSlope (i : Interpretation α) (number : R → α) (name : String) (point : List α)
    (f : Formula) (z : R[ε]) : Prop :=
  i.dual.evaluate (Coordinate.seeds name point) f = .ok (Dual.pair number z)

omit [CommRing R] [Arithmetic α] in
/-- Formulas with slopes, each together with its derivative. -/
theorem exists_jets_of_hasSlope {operands : List Formula} {zs : List R[ε]}
    (hOperands : List.Forall₂ (HasSlope i number name point) operands zs) :
    ∃ jets : List Jet, jets.map Jet.value = operands ∧
      (∀ j ∈ jets, j.value.derivative name = .ok j.slope) ∧
      List.Forall₂ (Jet.Represents i number point) jets zs := by
  have hEach (z : R[ε]) (f : Formula) (hOperand : f.HasSlope i number name point z) :
      ∃ j : Jet, j.value = f ∧ j.value.derivative name = .ok j.slope ∧
        j.Represents i number point z := by
    obtain ⟨slope, hSlope, hJet⟩ := hOperand
    exact ⟨⟨f, slope⟩, rfl, hSlope, hJet⟩
  obtain ⟨jets, hJets, hBoth⟩ :=
    exists_map_of_forall₂ hOperands.flip fun z _ f _ hOperand => hEach z f hOperand
  exact ⟨jets, hJets, (List.forall₂_and_left jets zs).mp hBoth.flip⟩

omit [CommRing R] in
/-- The slopes of operands are exact if those of each operand are. -/
theorem forall₂_hasSlope_iff_exact {operands : List Formula}
    (hEach : ∀ f ∈ operands, ∀ w : R[ε],
      f.HasSlope i number name point w ↔ f.HasExactSlope i number name point w) (ws : List R[ε]) :
    List.Forall₂ (HasSlope i number name point) operands ws ↔
      List.Forall₂ (HasExactSlope i number name point) operands ws :=
  ⟨fun hSlopes => ((List.forall₂_and_left operands ws).mpr ⟨hEach, hSlopes⟩).imp
      fun _ w hBoth => (hBoth.1 w).mp hBoth.2,
    fun hExact => ((List.forall₂_and_left operands ws).mpr ⟨hEach, hExact⟩).imp
      fun _ w hBoth => (hBoth.1 w).mpr hBoth.2⟩

/-- A formula has one slope at most. -/
theorem HasSlope.unique (hContains : Arithmetic.Contains number) {w : R[ε]}
    (hz : f.HasSlope i number name point z) (hw : f.HasSlope i number name point w) : z = w := by
  obtain ⟨slope, hSlope, hJet⟩ := hz
  obtain ⟨slope', hSlope', hJet'⟩ := hw
  obtain rfl := Except.ok.inj (hSlope.symm.trans hSlope')
  exact TrivSqZeroExt.ext
    (hContains.injective (Except.ok.inj (hJet.value.symm.trans hJet'.value)))
    (hContains.injective (Except.ok.inj (hJet.slope.symm.trans hJet'.slope)))

theorem hasSlope_leaf (hOver : i.IsOver number) (hLeaf : f.isOperation = false)
    (hValue : i.evaluate point f = .ok (number z.fst)) (hSlope : z.snd = f.leafSlope name) :
    f.HasSlope i number name point z :=
  ⟨_, derivative_leaf name hLeaf, hValue, hSlope ▸ hOver.evaluate_integer _⟩

/-- Operands have one list of values at most. -/
theorem eq_of_values (hContains : Arithmetic.Contains number) {operands : List Formula}
    {ps qs : List R}
    (hLeft : List.Forall₂ (fun f p => i.evaluate point f = .ok (number p)) operands ps)
    (hRight : List.Forall₂ (fun f p => i.evaluate point f = .ok (number p)) operands qs) :
    ps = qs := by
  have hUnique : Relator.RightUnique fun (f : Formula) p => i.evaluate point f = .ok (number p) :=
    fun _ _ _ hLeft hRight => hContains.injective (Except.ok.inj (hLeft.symm.trans hRight))
  exact List.right_unique_forall₂' hUnique hLeft hRight

omit [CommRing R] [Arithmetic α] in
theorem values_of_hasSlope {operands : List Formula} {zs : List R[ε]}
    (hOperands : List.Forall₂ (HasSlope i number name point) operands zs) :
    List.Forall₂ (fun f p => i.evaluate point f = .ok (number p)) operands
      (zs.map TrivSqZeroExt.fst) := by
  rw [List.forall₂_map_right_iff]
  exact hOperands.imp fun _ _ ⟨_, _, hJet⟩ => hJet.value

/-- The operands of an operation with a slope have slopes, which its rule uses. -/
theorem HasSlope.exists_jets (hOver : i.IsOver number) (hRoots : Arithmetic.ReflectsRoots number)
    {op : Operation} {operands : List Formula}
    (hSlope : HasSlope i number name point (.operation op operands) z) :
    ∃ (jets : List Jet) (ws : List R[ε]), jets.map Jet.value = operands ∧
      (∀ j ∈ jets, j.value.derivative name = .ok j.slope) ∧
      List.Forall₂ (Jet.Represents i number point) jets ws ∧
      i.evaluate point (Jet.operationSlope op jets) = .ok (number z.snd) := by
  obtain ⟨slope, hSlope, hJet⟩ := hSlope
  obtain ⟨jets, rfl, hDerivative, hJets⟩ := exists_jets_of_evaluate hOver hRoots name hJet.value
  obtain rfl := Except.ok.inj (hSlope.symm.trans hDerivative)
  have hEach : ∀ j ∈ jets, ∃ w : R[ε], j.Represents i number point w := by
    intro j hj
    obtain ⟨hNode, -, p, hValue⟩ := hJets j hj
    obtain ⟨d, hPart⟩ := hOver.evaluate_node hRoots hJet.slope hNode
    exact ⟨(p, d), hValue, hPart⟩
  choose! w hw using hEach
  refine ⟨jets, jets.map w, rfl, fun j hj => (hJets j hj).2.1, ?_, hJet.slope⟩
  rw [List.forall₂_map_right_iff, List.forall₂_same]
  exact hw

omit [CommRing R] [Arithmetic α] in
theorem forall₂_hasSlope_of_jets {jets : List Jet} {ws : List R[ε]}
    (hDerivatives : ∀ j ∈ jets, j.value.derivative name = .ok j.slope)
    (hJets : List.Forall₂ (Jet.Represents i number point) jets ws) :
    List.Forall₂ (HasSlope i number name point) (jets.map Jet.value) ws := by
  rw [List.forall₂_map_left_iff]
  exact ((List.forall₂_and_left jets ws).mpr ⟨hDerivatives, hJets⟩).imp
    fun j _ hBoth => ⟨j.slope, hBoth⟩

theorem HasSlope.exists_operands (hOver : i.IsOver number)
    (hRoots : Arithmetic.ReflectsRoots number) {op : Operation} {operands : List Formula}
    (hSlope : HasSlope i number name point (.operation op operands) z) :
    ∃ ws, List.Forall₂ (HasSlope i number name point) operands ws := by
  obtain ⟨jets, ws, rfl, hDerivatives, hJets, -⟩ := hSlope.exists_jets hOver hRoots
  exact ⟨ws, forall₂_hasSlope_of_jets hDerivatives hJets⟩

/-- An operation without roots has the slope that its operands give it in dual numbers. -/
theorem hasSlope_operation_iff (hOver : i.IsOver number)
    (hRoots : Arithmetic.ReflectsRoots number) {op : Operation} {operands : List Formula}
    (hRootFree : op ≠ .geomMean) :
    HasSlope i number name point (.operation op operands) z ↔
      ∃ ws, List.Forall₂ (HasSlope i number name point) operands ws ∧ op.Gives ws z := by
  constructor
  · intro hSlope
    have ⟨_, _, hWhole⟩ := hSlope
    obtain ⟨jets, ws, rfl, hDerivatives, hJets, hRule⟩ := hSlope.exists_jets hOver hRoots
    obtain ⟨ps, hValues, hGives⟩ := (hOver.evaluate_operation_eq hRootFree).mp hWhole.value
    have hOperands := forall₂_hasSlope_of_jets hDerivatives hJets
    obtain rfl := eq_of_values hOver.contains hValues (values_of_hasSlope hOperands)
    obtain ⟨t, hValue, hDual⟩ := hGives.lift (TrivSqZeroExt.fstHom R R R).toRingHom
    have hSame : t.snd = z.snd := hOver.contains.injective
      (Except.ok.inj ((Jet.Represents.operationSlope hOver hJets hDual).symm.trans hRule))
    obtain rfl : t = z := TrivSqZeroExt.ext hValue hSame
    exact ⟨ws, hOperands, hDual⟩
  · rintro ⟨ws, hOperands, hGives⟩
    obtain ⟨jets, rfl, hDerivatives, hJets⟩ := exists_jets_of_hasSlope hOperands
    have hAdmits : op.admits jets.length = true := hJets.length_eq ▸ hGives.admits
    exact ⟨_, derivative_of_jets hAdmits hDerivatives, .operation hOver hJets hGives⟩

theorem hasExactSlope_operation_iff (hOver : i.IsOver number) {op : Operation}
    {operands : List Formula} (hRootFree : op ≠ .geomMean) :
    HasExactSlope i number name point (.operation op operands) z ↔
      ∃ ws, List.Forall₂ (HasExactSlope i number name point) operands ws ∧ op.Gives ws z :=
  hOver.dual.evaluate_operation_eq hRootFree

/-- An operation has an exact slope only where all of its operands have. -/
theorem HasExactSlope.exists_operands (hOver : i.IsOver number)
    (hRoots : Arithmetic.ReflectsRoots number) {op : Operation} {operands : List Formula}
    (hExact : HasExactSlope i number name point (.operation op operands) z) :
    ∃ ws, List.Forall₂ (HasExactSlope i number name point) operands ws :=
  hOver.dual.evaluate_operands (hOver.contains.reflectsRoots_dual hRoots) hExact

/-- The slope of a formula without geometric means is exact. -/
theorem hasSlope_iff_exact (hOver : i.IsOver number) (hRootFree : f.isRootFree = true) :
    f.HasSlope i number name point z ↔ f.HasExactSlope i number name point z := by
  constructor
  · intro hSlope
    have ⟨_, _, hRepresents⟩ := hSlope
    obtain ⟨slope, w, hDifferentiable⟩ :=
      exists_isDifferentiable name hOver hRootFree hRepresents.value
    obtain rfl := hSlope.unique hOver.contains
      ⟨slope, hDifferentiable.derivative, hDifferentiable.represents⟩
    exact hDifferentiable.dual
  · intro hExact
    obtain ⟨slope, hDifferentiable⟩ := exists_isDifferentiable_of_dual hOver hRootFree hExact
    exact ⟨slope, hDifferentiable.derivative, hDifferentiable.represents⟩

end Formula

end Formulas

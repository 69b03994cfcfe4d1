import Formulas.Proofs.Arithmetic.Contains
import Formulas.Proofs.Formula.Evaluation
import Formulas.Proofs.Formula.Jet

/-! Values of derivatives next to dual numbers. Where the arithmetic contains a ring, the
pairs for constants, sums, products and quotients follow the dual numbers over the ring, and
so does the rule for each operation without roots. -/
namespace Formulas

open Arithmetic
open scoped DualNumber

variable {R α : Type} [CommRing R] [Arithmetic α]

namespace Interpretation

/-- Dual numbers over an arithmetic. Constants do not change. -/
def dual (i : Interpretation α) : Interpretation (Dual α) where
  constant value := (i.constant value).map fun a => ⟨a, ofNat 0⟩
  operation := combine

/-- Operations are those of an arithmetic that contains a ring, and constants lie in it. -/
structure IsOver (i : Interpretation α) (number : R → α) : Prop where
  contains : Contains number
  operation : i.operation = combine
  integer (n : Nat) : i.constant (.integer n) = some (ofNat n)
  constant {value : Constant} {a : α} : i.constant value = some a → ∃ r, a = number r

namespace IsOver

variable {i : Interpretation α} {number : R → α} {point : List α} {op : Operation}
  {operands : List Formula} {f g : Formula} {p q r : R}

/-- Dual numbers over a ring are a ring as well. -/
theorem dual (hOver : i.IsOver number) : i.dual.IsOver (Dual.pair number) where
  contains := hOver.contains.dual
  operation := rfl
  integer n := congrArg (Option.map fun a => (⟨a, ofNat 0⟩ : Dual α)) (hOver.integer n)
  constant {value} _ hConstant := by
    obtain ⟨a, hValue, rfl⟩ := Option.map_eq_some_iff.mp hConstant
    obtain ⟨r, rfl⟩ := hOver.constant hValue
    refine ⟨TrivSqZeroExt.inl r, congrArg (Dual.mk (number r)) ?_⟩
    rw [hOver.contains.ofNat, Nat.cast_zero, TrivSqZeroExt.snd_inl]

variable (hOver : i.IsOver number)
include hOver

/-- An operation without roots has a value in the ring when its operands have. -/
theorem evaluate_operation_eq (hRootFree : op ≠ .geomMean) :
    i.evaluate point (.operation op operands) = .ok (number r) ↔
      ∃ ps, List.Forall₂ (fun f p => i.evaluate point f = .ok (number p)) operands ps ∧
        op.Gives ps r := by
  rw [evaluate_operation_eq_ok, hOver.operation]
  constructor
  · rintro ⟨hAdmits, values, hValues, hCombined⟩
    obtain ⟨ps, rfl, hGives⟩ :=
      hOver.contains.gives_of_combine (hValues.length_eq ▸ hAdmits) hRootFree hCombined
    rw [List.forall₂_map_right_iff] at hValues
    exact ⟨ps, hValues, hGives⟩
  · rintro ⟨ps, hValues, hGives⟩
    exact ⟨hValues.length_eq ▸ hGives.admits, ps.map number, List.forall₂_map_right_iff.mpr hValues,
      hOver.contains.combine_of_gives hGives⟩

theorem evaluate_of_gives {ps : List R} (hGives : op.Gives ps r)
    (hOperands : List.Forall₂ (fun f p => i.evaluate point f = .ok (number p)) operands ps) :
    i.evaluate point (.operation op operands) = .ok (number r) :=
  (hOver.evaluate_operation_eq hGives.ne_geomMean).mpr ⟨ps, hOperands, hGives⟩

theorem evaluate_pair (hGives : op.Gives [p, q] r) (hLeft : i.evaluate point f = .ok (number p))
    (hRight : i.evaluate point g = .ok (number q)) :
    i.evaluate point (.operation op [f, g]) = .ok (number r) :=
  hOver.evaluate_of_gives hGives (.cons hLeft (.cons hRight .nil))

theorem evaluate_integer (n : Nat) :
    i.evaluate point (.constant (.integer n)) = .ok (number n) :=
  evaluate_constant_eq_ok.mpr ((hOver.integer n).trans (congrArg some (hOver.contains.ofNat n)))

theorem evaluate_zero : i.evaluate point (.constant (.integer 0)) = .ok (number 0) :=
  Nat.cast_zero (R := R) ▸ hOver.evaluate_integer 0

theorem evaluate_add (hLeft : i.evaluate point f = .ok (number p))
    (hRight : i.evaluate point g = .ok (number q)) :
    i.evaluate point (.operation .add [f, g]) = .ok (number (p + q)) :=
  hOver.evaluate_pair (.add p q) hLeft hRight

theorem evaluate_mul (hLeft : i.evaluate point f = .ok (number p))
    (hRight : i.evaluate point g = .ok (number q)) :
    i.evaluate point (.operation .mul [f, g]) = .ok (number (p * q)) :=
  hOver.evaluate_pair (.mul p q) hLeft hRight

/-- A geometric mean is the root of the product. -/
theorem evaluate_geomMean {ps : List R} (hNonempty : operands ≠ [])
    (hOperands : List.Forall₂ (fun f p => i.evaluate point f = .ok (number p)) operands ps) :
    i.evaluate point (.operation .geomMean operands) =
      .ok (root operands.length (number ps.prod)) := by
  have hCount : 1 ≤ operands.length := List.length_pos_iff.mpr hNonempty
  refine evaluate_operation_eq_ok.mpr ⟨decide_eq_true hCount, ps.map number,
    List.forall₂_map_right_iff.mpr hOperands, ?_⟩
  rw [hOperands.length_eq] at hCount ⊢
  obtain ⟨p, rest, rfl⟩ := List.exists_cons_of_length_pos hCount
  have hProduct : product (number p :: rest.map number) = number (p :: rest).prod :=
    hOver.contains.product_eq.mpr ⟨p, rest, rfl, rfl, rfl⟩
  rw [hOver.operation]
  show root ((rest.map number).length + 1) (product (number p :: rest.map number)) = _
  rw [hProduct, List.length_map, List.length_cons]

/-- An operation has a value in the ring only where all of its operands have. -/
theorem evaluate_operands (hRoots : ReflectsRoots number)
    (hValue : i.evaluate point (.operation op operands) = .ok (number r)) :
    ∃ ps, List.Forall₂ (fun f p => i.evaluate point f = .ok (number p)) operands ps := by
  by_cases hRoot : op = .geomMean
  · subst hRoot
    obtain ⟨hAdmits, values, hValues, hCombined⟩ := evaluate_operation_eq_ok.mp hValue
    obtain ⟨a, rest, rfl⟩ := Operation.exists_cons (hValues.length_eq ▸ hAdmits)
    rw [hOver.operation] at hCombined
    obtain ⟨_, hProduct⟩ := hRoots hCombined
    obtain ⟨p, ps, rfl, rfl, -⟩ := hOver.contains.product_eq.mp hProduct
    rw [← List.map_cons, List.forall₂_map_right_iff] at hValues
    exact ⟨p :: ps, hValues⟩
  · obtain ⟨ps, hOperands, -⟩ := (hOver.evaluate_operation_eq hRoot).mp hValue
    exact ⟨ps, hOperands⟩

/-- A formula has a value in the ring only where all of its nodes have. -/
theorem evaluate_node (hRoots : ReflectsRoots number) (hValue : i.evaluate point f = .ok (number r))
    (hg : g ∈ f.nodes .depthFirst) : ∃ p, i.evaluate point g = .ok (number p) := by
  induction f generalizing r with
  | constant value => exact ⟨r, Formula.eq_of_mem_nodes rfl hg ▸ hValue⟩
  | coordinate which => exact ⟨r, Formula.eq_of_mem_nodes rfl hg ▸ hValue⟩
  | operation op operands ih =>
      rcases Formula.mem_nodes_operation.mp hg with rfl | ⟨f, hf, hg⟩
      · exact ⟨r, hValue⟩
      · obtain ⟨ps, hOperands⟩ := hOver.evaluate_operands hRoots hValue
        obtain ⟨p, hOperand⟩ := Result.exists_of_forall₂ hOperands f hf
        exact ih f hf hOperand hg

/-- A power that is written as a product from left to right. -/
theorem evaluate_power (hf : i.evaluate point f = .ok (number p))
    (hg : i.evaluate point g = .ok (number q)) (jets : List Jet) :
    i.evaluate point (jets.foldl (fun power _ => .operation .mul [power, g]) f) =
      .ok (number (p * q ^ jets.length)) := by
  induction jets generalizing f p with
  | nil => simpa using hf
  | cons j rest ih =>
      rw [List.foldl_cons, ih (hOver.evaluate_mul hf hg), List.length_cons, pow_succ', mul_assoc]

end IsOver

end Interpretation

namespace Jet

/-- At the point the formula and its derivative have the parts of the dual number as values. -/
structure Represents (i : Interpretation α) (number : R → α) (point : List α) (j : Jet)
    (z : R[ε]) : Prop where
  value : i.evaluate point j.value = .ok (number z.fst)
  slope : i.evaluate point j.slope = .ok (number z.snd)

namespace Represents

variable {i : Interpretation α} {number : R → α} (hOver : i.IsOver number) {point : List α}
  {j k : Jet} {z w t : R[ε]}
include hOver

theorem integer (n : Nat) : Represents i number point (Jet.integer n) n where
  value := hOver.evaluate_integer n
  slope := TrivSqZeroExt.snd_natCast (R := R) (M := R) n ▸ hOver.evaluate_zero

theorem add (hj : Represents i number point j z) (hk : Represents i number point k w) :
    Represents i number point (j.add k) (z + w) where
  value := hOver.evaluate_add hj.value hk.value
  slope := hOver.evaluate_add hj.slope hk.slope

theorem mul (hj : Represents i number point j z) (hk : Represents i number point k w) :
    Represents i number point (j.mul k) (z * w) where
  value := hOver.evaluate_mul hj.value hk.value
  slope := by
    rw [DualNumber.snd_mul, add_comm]
    exact hOver.evaluate_add (hOver.evaluate_mul hj.slope hk.value)
      (hOver.evaluate_mul hj.value hk.slope)

theorem div (hj : Represents i number point j z) (hk : Represents i number point k w)
    (hUnit : IsUnit w) (hProduct : t * w = z) : Represents i number point (j.div k) t := by
  replace hUnit := TrivSqZeroExt.isUnit_iff_isUnit_fst.mp hUnit
  obtain ⟨hValue, hSlope⟩ := (mul_eq_iff_of_isUnit hUnit).mp hProduct
  have hDifference := hOver.evaluate_pair (.sub _ _) (hOver.evaluate_mul hj.slope hk.value)
    (hOver.evaluate_mul hj.value hk.slope)
  exact ⟨hOver.evaluate_pair (.div hUnit hValue) hj.value hk.value,
    hOver.evaluate_pair (.div (hUnit.mul hUnit) hSlope) hDifference
      (hOver.evaluate_mul hk.value hk.value)⟩

theorem real {x : Binary64} {s : R} (hConstant : i.constant (.real x) = some (number s)) :
    Represents i number point (Jet.real x) (TrivSqZeroExt.inl s) where
  value := Interpretation.evaluate_constant_eq_ok.mpr hConstant
  slope := hOver.evaluate_zero

theorem foldl_mul {jets : List Jet} {ws : List R[ε]} (hj : Represents i number point j z)
    (hJets : List.Forall₂ (Represents i number point) jets ws) :
    Represents i number point (jets.foldl Jet.mul j) (z :: ws).prod := by
  rw [← foldl_mul_eq_prod]
  exact List.rel_foldl (fun _ _ hj _ _ hk => hj.mul hOver hk) hj hJets

/-- The rule for the sum of squares. -/
theorem hypotSlope (hj : Represents i number point j z) (hk : Represents i number point k w) :
    i.evaluate point (Jet.hypotSlope j k) = .ok (number (z * z + w * w).snd) := by
  have hRule : (2 : Nat) * (z.fst * z.snd + w.fst * w.snd) = (z * z + w * w).snd := by
    rw [TrivSqZeroExt.snd_add, DualNumber.snd_mul, DualNumber.snd_mul, Nat.cast_ofNat]
    ring
  rw [← hRule]
  exact hOver.evaluate_mul (hOver.evaluate_integer 2)
    (hOver.evaluate_add (hOver.evaluate_mul hj.value hj.slope)
      (hOver.evaluate_mul hk.value hk.slope))

/-- The rule for the binary harmonic mean, which is not written like its value. -/
theorem hmeanSlope (hj : Represents i number point j z) (hk : Represents i number point k w)
    {u v : R[ε]} (hLeft : u * z = 1) (hRight : v * w = 1) (hUnit : IsUnit (u + v))
    (hProduct : t * (u + v) = 2) :
    i.evaluate point (Jet.hmeanSlope j k) = .ok (number t.snd) := by
  have hSum : (u + v) * (z * w) = z + w := by linear_combination w * hLeft + z * hRight
  have hMean : t * (z + w) = z * w + z * w := by
    linear_combination z * w * hProduct - t * hSum
  have hBoth : IsUnit (z + w) :=
    hSum ▸ hUnit.mul ((IsUnit.of_mul_eq_one_right u hLeft).mul (.of_mul_eq_one_right v hRight))
  replace hBoth : IsUnit (z.fst + w.fst) := TrivSqZeroExt.isUnit_iff_isUnit_fst.mp hBoth
  have hValue := congrArg TrivSqZeroExt.fst hMean
  have hSlope := congrArg TrivSqZeroExt.snd hMean
  simp only [TrivSqZeroExt.fst_mul, DualNumber.snd_mul, TrivSqZeroExt.fst_add,
    TrivSqZeroExt.snd_add] at hValue hSlope
  have hSquare := hBoth.mul hBoth
  obtain ⟨s, hInverse⟩ := hSquare.exists_left_inv
  have hRule : (2 : Nat) * ((z.fst * z.fst * w.snd + w.fst * w.fst * z.snd) * s) = t.snd := by
    refine hSquare.mul_right_cancel ?_
    rw [Nat.cast_ofNat]
    linear_combination 2 * (z.fst * z.fst * w.snd + w.fst * w.fst * z.snd) * hInverse -
      (z.fst + w.fst) * hSlope + (z.snd + w.snd) * hValue
  have hQuotient := hOver.evaluate_pair
    (.div hSquare (by rw [mul_assoc, hInverse, mul_one]))
    (hOver.evaluate_add
      (hOver.evaluate_mul (hOver.evaluate_mul hj.value hj.value) hk.slope)
      (hOver.evaluate_mul (hOver.evaluate_mul hk.value hk.value) hj.slope))
    (hOver.evaluate_mul (hOver.evaluate_add hj.value hk.value)
      (hOver.evaluate_add hj.value hk.value))
  rw [← hRule]
  exact hOver.evaluate_mul (hOver.evaluate_integer 2) hQuotient

/-- The rule for the arithmetic mean. -/
theorem arithMeanSlope {jets : List Jet} {ws : List R[ε]} (hj : Represents i number point j z)
    (hJets : List.Forall₂ (Represents i number point) jets ws)
    (hUnit : IsUnit ((ws.length + 1 : Nat) : R[ε]))
    (hProduct : t * (ws.length + 1 : Nat) = (z :: ws).sum) :
    i.evaluate point (Jet.arithMeanSlope j jets) = .ok (number t.snd) := by
  have hFold : Represents i number point (jets.foldl Jet.add j) (ws.foldl (· + ·) z) :=
    List.rel_foldl (fun _ _ hj _ _ hk => hj.add hOver hk) hj hJets
  have hCount := TrivSqZeroExt.isUnit_iff_isUnit_fst.mp hUnit
  have hSlope := congrArg TrivSqZeroExt.snd hProduct
  rw [DualNumber.snd_mul, TrivSqZeroExt.snd_natCast, mul_zero, zero_add] at hSlope
  rw [foldl_add_eq_sum] at hFold
  rw [← hJets.length_eq] at hCount hSlope
  exact hOver.evaluate_pair (.div hCount hSlope) hFold.slope
    (hOver.evaluate_integer (jets.length + 1))

/-- The rule for the geometric mean divides the slope of the product, times the constant, by the
power of the mean. This may be a division by zero. -/
theorem geomMeanSlope {jets : List Jet} {ws : List R[ε]} {s g : R}
    (hj : Represents i number point j z)
    (hJets : List.Forall₂ (Represents i number point) jets ws)
    (hShare : i.constant (.real (Binary64.round false 1 (jets.length + 1))) = some (number s))
    (hMean : i.evaluate point (.operation .geomMean ((j :: jets).map Jet.value)) =
      .ok (number g)) :
    i.evaluate point (Jet.geomMeanSlope j jets) = .ok (Arithmetic.div
      (number (s * (z :: ws).prod.snd)) (number (g ^ jets.length))) := by
  have hProduct := ((real hOver hShare).mul hOver (hj.foldl_mul hOver hJets)).slope
  rw [DualNumber.snd_mul, TrivSqZeroExt.fst_inl, TrivSqZeroExt.snd_inl, zero_mul, add_zero]
    at hProduct
  have hPower := hOver.evaluate_power (hOver.evaluate_integer 1) hMean jets
  rw [Nat.cast_one (R := R), one_mul] at hPower
  have hDivision : i.operation .div = combine .div := congrFun hOver.operation .div
  exact (Interpretation.evaluate_pair rfl hProduct hPower).trans
    (congrArg Except.ok (congrFun hDivision _))

theorem reciprocals {jets : List Jet} {zs us : List R[ε]}
    (hJets : List.Forall₂ (Represents i number point) jets zs)
    (hReciprocals : List.Forall₂ (fun z u => u * z = 1) zs us) :
    List.Forall₂ (fun j u => Represents i number point ((Jet.integer 1).div j) u) jets us := by
  induction hReciprocals generalizing jets with
  | nil =>
      cases hJets
      exact .nil
  | @cons z u zs us hOne hRest ih =>
      cases hJets with
      | cons hj hJets =>
          refine .cons ((integer hOver 1).div hOver hj (.of_mul_eq_one_right u hOne) ?_) (ih hJets)
          rw [hOne, Nat.cast_one]

/-- The rule for the harmonic mean. -/
theorem harmMeanSlope {jets : List Jet} {zs us : List R[ε]}
    (hJets : List.Forall₂ (Represents i number point) jets zs)
    (hReciprocals : List.Forall₂ (fun z u => u * z = 1) zs us) (hUnit : IsUnit us.sum)
    (hProduct : t * us.sum = (zs.length : Nat)) :
    i.evaluate point (Jet.harmMeanSlope jets) = .ok (number t.snd) := by
  have hQuotients := reciprocals hOver hJets hReciprocals
  have hTotal : Represents i number point
      (jets.foldl (fun total j => total.add ((Jet.integer 1).div j)) (Jet.integer 0))
      (us.foldl (· + ·) (0 : Nat)) :=
    List.rel_foldl (fun _ _ hTotal _ _ hk => hTotal.add hOver hk) (integer hOver 0) hQuotients
  rw [Nat.cast_zero, ← List.sum_eq_foldl] at hTotal
  rw [← hJets.length_eq] at hProduct
  exact ((integer hOver jets.length).div hOver hTotal hUnit hProduct).slope

/-- The derivative of an operation has the slope of the operation in dual numbers as value. -/
theorem operationSlope {op : Operation} {jets : List Jet} {zs : List R[ε]}
    (hJets : List.Forall₂ (Represents i number point) jets zs) (hGives : op.Gives zs t) :
    i.evaluate point (Jet.operationSlope op jets) = .ok (number t.snd) := by
  cases hGives with
  | add z w =>
      obtain _ | ⟨hj, _ | ⟨hk, _ | _⟩⟩ := hJets
      exact (hj.add hOver hk).slope
  | sub z w =>
      obtain _ | ⟨hj, _ | ⟨hk, _ | _⟩⟩ := hJets
      exact hOver.evaluate_pair (.sub _ _) hj.slope hk.slope
  | mul z w =>
      obtain _ | ⟨hj, _ | ⟨hk, _ | _⟩⟩ := hJets
      exact (hj.mul hOver hk).slope
  | div hUnit hProduct =>
      obtain _ | ⟨hj, _ | ⟨hk, _ | _⟩⟩ := hJets
      exact (hj.div hOver hk hUnit hProduct).slope
  | hypot z w =>
      obtain _ | ⟨hj, _ | ⟨hk, _ | _⟩⟩ := hJets
      exact hj.hypotSlope hOver hk
  | hmean hLeft hRight hUnit hProduct =>
      obtain _ | ⟨hj, _ | ⟨hk, _ | _⟩⟩ := hJets
      exact hj.hmeanSlope hOver hk hLeft hRight hUnit hProduct
  | negate z =>
      obtain _ | ⟨hj, _ | _⟩ := hJets
      exact hOver.evaluate_of_gives (.negate z.snd) (.cons hj.slope .nil)
  | arithMean hUnit hProduct =>
      obtain _ | ⟨hj, hRest⟩ := hJets
      exact hj.arithMeanSlope hOver hRest hUnit hProduct
  | harmMean hReciprocals hUnit hProduct =>
      exact harmMeanSlope hOver hJets hReciprocals hUnit hProduct

/-- An operation and its derivative, where the operation has a value in dual numbers. -/
theorem operation {op : Operation} {jets : List Jet} {zs : List R[ε]}
    (hJets : List.Forall₂ (Represents i number point) jets zs) (hGives : op.Gives zs t) :
    Represents i number point
      ⟨.operation op (jets.map Jet.value), Jet.operationSlope op jets⟩ t where
  value := by
    refine hOver.evaluate_of_gives (hGives.map (TrivSqZeroExt.fstHom R R R).toRingHom) ?_
    rw [List.forall₂_map_left_iff, List.forall₂_map_right_iff]
    exact hJets.imp fun _ _ hj => hj.value
  slope := operationSlope hOver hJets hGives

end Represents

end Jet

end Formulas

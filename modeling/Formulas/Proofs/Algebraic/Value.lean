import Formulas.Algebraic.Value
import Formulas.Proofs.Formula.Derivative

/-! Values of algebraic forms. A form is built from sums, products and powers where the formula has
differences, quotients and means. Wherever the formula has a value in exact arithmetic, all powers
in the form exist, and the form has the same value. -/
namespace Formulas

namespace Arithmetic

/-- The elements of a ring among the values of an arithmetic in which sums, products and
reciprocals of such elements are what they are in the ring. -/
structure Extends {R α : Type} [CommRing R] [Arithmetic α] (number : R → α) : Prop where
  ofNat (n : Nat) : Arithmetic.ofNat n = number n
  add (p q : R) : Arithmetic.add (number p) (number q) = number (p + q)
  mul (p q : R) : Arithmetic.mul (number p) (number q) = number (p * q)
  reciprocal {p u : R} (hOne : u * p = 1) : Arithmetic.reciprocal (number p) = number u

variable {R α : Type} [CommRing R] [Arithmetic α] {number : R → α}

theorem Contains.extends (hContains : Contains number) : Extends number where
  ofNat := hContains.ofNat
  add := hContains.add
  mul := hContains.mul
  reciprocal hOne := hContains.reciprocal_eq.mpr ⟨_, rfl, hOne⟩

namespace Extends

variable (hExtends : Extends number)
include hExtends

theorem sum (ps : List R) : Arithmetic.sum (ps.map number) = number ps.sum := by
  cases ps with
  | nil => exact (hExtends.ofNat 0).trans (by rw [Nat.cast_zero, List.sum_nil])
  | cons p rest =>
      rw [List.map_cons, Arithmetic.sum, ← foldl_add_eq_sum]
      exact List.foldl_map_hom hExtends.add

theorem product (ps : List R) : Arithmetic.product (ps.map number) = number ps.prod := by
  cases ps with
  | nil => exact (hExtends.ofNat 1).trans (by rw [Nat.cast_one, List.prod_nil])
  | cons p rest =>
      rw [List.map_cons, Arithmetic.product, ← foldl_mul_eq_prod]
      exact List.foldl_map_hom hExtends.mul

end Extends

end Arithmetic

/-- Extended rational numbers extend the rational numbers. -/
theorem extends_finite : Arithmetic.Extends Extended.finite where
  ofNat _ := rfl
  add _ _ := rfl
  mul _ _ := rfl
  reciprocal {p u} hOne := by
    have hNonzero : p ≠ 0 := right_ne_zero_of_mul_eq_one hOne
    have hInverse : Extended.inverse (.finite p) = .finite (1 / p) := if_neg hNonzero
    show Extended.mul (.finite 1) (Extended.inverse (.finite p)) = .finite u
    rw [hInverse, Extended.mul, one_mul, eq_div_of_mul_eq hNonzero hOne]

namespace Algebraic

variable {R α : Type} [CommRing R] [Arithmetic α]

theorem ofFormula_operation (op : Operation) (operands : List Formula) :
    ofFormula (.operation op operands) =
      (operands.map ofFormula).mapM id >>= ofOperation op :=
  Formula.fold_operation ..

/-- Values of constants and coordinates in an arithmetic that extends a ring. Integers have the
values that they have in the ring. -/
structure Valuation (number : R → α) where
  constant : Constant → Except Failure α
  coordinate : Coordinate → Except Failure α
  extension : Arithmetic.Extends number
  constant_integer (n : Int) : constant (.integer n) = .ok (number n)

namespace Valuation

variable {number : R → α} (v : Valuation number)

/-- The form has a value, and this lies in the ring. -/
def HasValue (a : Algebraic) (r : R) : Prop :=
  a.evaluate v.constant v.coordinate = .ok (number r)

variable {v} {a b : Algebraic} {as : List Algebraic} {p q r u : R} {ps us : List R}

theorem evaluateAll_eq (hValues : List.Forall₂ v.HasValue as ps) :
    evaluateAll v.constant v.coordinate as = .ok (ps.map number) := by
  induction hValues with
  | nil => rfl
  | cons hFirst hRest ih => rw [evaluateAll, hFirst, Result.ok_bind, ih]; rfl

theorem hasValue_sum (hValues : List.Forall₂ v.HasValue as ps) : v.HasValue (.sum as) ps.sum := by
  rw [HasValue, evaluate, evaluateAll_eq hValues, Result.map_ok, v.extension.sum]

theorem hasValue_product (hValues : List.Forall₂ v.HasValue as ps) :
    v.HasValue (.product as) ps.prod := by
  rw [HasValue, evaluate, evaluateAll_eq hValues, Result.map_ok, v.extension.product]

theorem hasValue_add (ha : v.HasValue a p) (hb : v.HasValue b q) :
    v.HasValue (.sum [a, b]) (p + q) := by
  simpa using hasValue_sum (.cons ha (.cons hb .nil))

theorem hasValue_mul (ha : v.HasValue a p) (hb : v.HasValue b q) :
    v.HasValue (.product [a, b]) (p * q) := by
  simpa using hasValue_product (.cons ha (.cons hb .nil))

theorem hasValue_integer (n : Int) : v.HasValue (integer n) n := by
  rw [HasValue, integer, evaluate, v.constant_integer]

theorem hasValue_count (hValues : List.Forall₂ v.HasValue as ps) :
    v.HasValue (integer as.length) (ps.length : R) := by
  have hCount : ((as.length : Int) : R) = ps.length := by
    rw [Int.cast_natCast, hValues.length_eq]
  exact hCount ▸ hasValue_integer (v := v) as.length

theorem hasValue_square (hValue : v.HasValue a p) : v.HasValue (.power a 2) (p * p) := by
  rw [HasValue, evaluate, hValue, Result.map_ok]
  exact congrArg Except.ok (v.extension.mul p p)

/-- A reciprocal exists where one exists in the ring. -/
theorem hasValue_inverse (hValue : v.HasValue a p) (hOne : u * p = 1) :
    v.HasValue (inverse a) u := by
  rw [HasValue, inverse, evaluate, hValue, Result.map_ok]
  exact congrArg Except.ok (v.extension.reciprocal hOne)

theorem hasValue_inverses (hValues : List.Forall₂ v.HasValue as ps)
    (hOnes : List.Forall₂ (fun p u => u * p = 1) ps us) :
    List.Forall₂ v.HasValue (as.map inverse) us := by
  induction hOnes generalizing as with
  | nil => cases hValues; exact .nil
  | cons hOne hOnes ih =>
      cases hValues with
      | cons hFirst hRest => exact .cons (hasValue_inverse hFirst hOne) (ih hRest)

/-- A quotient is a product with a reciprocal. -/
theorem hasValue_div (ha : v.HasValue a p) (hb : v.HasValue b q) (hUnit : IsUnit q)
    (hProduct : r * q = p) : v.HasValue (.product [a, inverse b]) r := by
  obtain ⟨u, hOne⟩ := hUnit.exists_left_inv
  have hQuotient : p * u = r := by linear_combination r * hOne - u * hProduct
  exact hQuotient ▸ hasValue_mul ha (hasValue_inverse hb hOne)

/-- Where an operation without roots gives a value in the ring, so does its algebraic form. -/
theorem exists_ofOperation {op : Operation} (hGives : op.Gives ps r)
    (hValues : List.Forall₂ v.HasValue as ps) :
    ∃ form, ofOperation op as = .ok form ∧ v.HasValue form r := by
  cases hGives with
  | add p q =>
      obtain _ | ⟨ha, _ | ⟨hb, _ | _⟩⟩ := hValues
      exact ⟨_, rfl, hasValue_add ha hb⟩
  | sub p q =>
      obtain _ | ⟨ha, _ | ⟨hb, _ | _⟩⟩ := hValues
      have hOpposite : p + ((-1 : Int) : R) * q = p - q := by push_cast; ring
      exact ⟨_, rfl, hOpposite ▸ hasValue_add ha (hasValue_mul (hasValue_integer (-1)) hb)⟩
  | mul p q =>
      obtain _ | ⟨ha, _ | ⟨hb, _ | _⟩⟩ := hValues
      exact ⟨_, rfl, hasValue_mul ha hb⟩
  | div hUnit hProduct =>
      obtain _ | ⟨ha, _ | ⟨hb, _ | _⟩⟩ := hValues
      exact ⟨_, rfl, hasValue_div ha hb hUnit hProduct⟩
  | hypot p q =>
      obtain _ | ⟨ha, _ | ⟨hb, _ | _⟩⟩ := hValues
      exact ⟨_, rfl, hasValue_add (hasValue_square ha) (hasValue_square hb)⟩
  | hmean hLeft hRight hUnit hProduct =>
      obtain _ | ⟨ha, _ | ⟨hb, _ | _⟩⟩ := hValues
      have hSum := hasValue_add (hasValue_inverse ha hLeft) (hasValue_inverse hb hRight)
      exact ⟨_, rfl, hasValue_div (hasValue_integer 2) hSum hUnit (by exact_mod_cast hProduct)⟩
  | negate p =>
      obtain _ | ⟨ha, _ | _⟩ := hValues
      have hOpposite : ((-1 : Int) : R) * p = -p := by push_cast; ring
      exact ⟨_, rfl, hOpposite ▸ hasValue_mul (hasValue_integer (-1)) ha⟩
  | arithMean hUnit hProduct =>
      exact ⟨_, rfl, hasValue_div (hasValue_sum hValues) (hasValue_count hValues) hUnit hProduct⟩
  | harmMean hOnes hUnit hProduct =>
      have hSum := hasValue_sum (hasValue_inverses hValues hOnes)
      exact ⟨_, rfl, hasValue_div (hasValue_count hValues) hSum hUnit hProduct⟩

/-- Wherever a formula without roots has an exact value, its algebraic form has the same value in
every extension of the rational numbers. -/
theorem exists_ofFormula {number : ℚ → α} {v : Valuation number} {point : List ℚ} {f : Formula}
    {q : ℚ} (hConstant : ∀ value q, value.exact? = some q → v.constant value = .ok (number q))
    (hCoordinate : ∀ which q, point[which.index]? = some q → v.coordinate which = .ok (number q))
    (hRootFree : f.isRootFree = true)
    (hDefined : Interpretation.exact.evaluate (point.map some) f = .ok (some q)) :
    ∃ form, ofFormula f = .ok form ∧ v.HasValue form q := by
  induction f generalizing q with
  | constant value =>
      refine ⟨_, rfl, hConstant value q ?_⟩
      simpa [Interpretation.exact] using Interpretation.evaluate_constant_eq_ok.mp hDefined
  | coordinate which =>
      refine ⟨_, rfl, hCoordinate which q ?_⟩
      simpa using Interpretation.evaluate_coordinate_eq_ok.mp hDefined
  | operation op operands ih =>
      obtain ⟨hNoRoot, hOperands⟩ := Formula.isRootFree_operation.mp hRootFree
      obtain ⟨ps, hValues, hGives⟩ :=
        (Interpretation.isOver_exact.evaluate_operation_eq hNoRoot).mp hDefined
      obtain ⟨forms, hForms, hFormValues⟩ := Result.exists_between_of_forall₂ hValues
        fun g hg p _ hOperand => ih g hg (hOperands g hg) hOperand
      have hAll : (operands.map ofFormula).mapM id = .ok forms :=
        Result.mapM_eq_ok.mpr (List.forall₂_map_left_iff.mpr hForms)
      obtain ⟨form, hForm, hValue⟩ := exists_ofOperation hGives hFormValues
      exact ⟨form, by rw [ofFormula_operation, hAll, Result.ok_bind, hForm], hValue⟩

/-- Constants and coordinates in exact arithmetic, where a division by zero has no result. -/
def exact (point : List ℚ) : Valuation (some : ℚ → Exact) where
  constant value := .ok value.exact?
  coordinate := Interpretation.coordinateValue (point.map some)
  extension := contains_exact.extends
  constant_integer _ := rfl

/-- Constants and coordinates among the extended rational numbers. -/
def extended (point : List ℚ) : Valuation Extended.finite where
  constant value := .ok value.toExtended
  coordinate := Interpretation.coordinateValue (point.map .finite)
  extension := extends_finite
  constant_integer _ := rfl

end Valuation

end Algebraic

theorem Constant.toExtended_of_exact? {value : Constant} {q : ℚ} (hValue : value.exact? = some q) :
    value.toExtended = .finite q := by
  cases value with
  | integer n => exact congrArg Extended.finite (Option.some.inj hValue)
  | real x =>
      obtain ⟨hFinite, hRational⟩ := Option.ite_none_right_eq_some.mp hValue
      obtain rfl := Option.some.inj hRational
      exact if_pos hFinite

namespace Formula

/-- Wherever a formula without geometric means has an exact value, so has its algebraic form,
which adds multiples of minus one and multiplies with powers instead of subtracting and dividing.
The two values are the same, and no power of zero occurs on the way. A formula that has a value is
well formed, and all its constants are finite. -/
theorem ofFormula_exact {f : Formula} {point : List ℚ} {q : ℚ} (hRootFree : f.isRootFree = true)
    (hDefined : Interpretation.exact.evaluate (point.map some) f = .ok (some q)) :
    ∃ form, Algebraic.ofFormula f = .ok form ∧
      form.evaluate (fun value => .ok value.exact?)
        (Interpretation.coordinateValue (point.map some)) = .ok (some q) ∧
      f.exactValue point = .ok (.finite q) := by
  obtain ⟨form, hForm, hExact⟩ := Algebraic.Valuation.exists_ofFormula (v := .exact point)
    (fun _ _ hValue => congrArg Except.ok hValue)
    (fun _ _ hPoint => Interpretation.coordinateValue_map hPoint) hRootFree hDefined
  obtain ⟨_, hSame, hExtended⟩ := Algebraic.Valuation.exists_ofFormula (v := .extended point)
    (fun _ _ hValue => congrArg Except.ok (Constant.toExtended_of_exact? hValue))
    (fun _ _ hPoint => Interpretation.coordinateValue_map hPoint) hRootFree hDefined
  obtain rfl := Except.ok.inj (hForm.symm.trans hSame)
  refine ⟨form, hForm, hExact, ?_⟩
  rw [exactValue, hForm]
  exact hExtended

/-- A harmonic mean, a difference and a binary harmonic mean at one point. -/
theorem ofFormula_exact_harmMean :
    let f : Formula := .operation .harmMean
      [.coordinate .x, .operation .sub
        [.coordinate .y, .operation .hmean [.coordinate .z, .constant (.integer 2)]]]
    let point : List ℚ := [3, 4, 2]
    (f.isRootFree = true ∧
        Interpretation.exact.evaluate (point.map some) f = .ok (some (12 / 5))) ∧
      ∃ form, Algebraic.ofFormula f = .ok form ∧
        form.evaluate (fun value => .ok value.exact?)
          (Interpretation.coordinateValue (point.map some)) = .ok (some (12 / 5)) ∧
        f.exactValue point = .ok (.finite (12 / 5)) :=
  ⟨⟨by decide +kernel, by decide +kernel⟩,
    ofFormula_exact (by decide +kernel) (by decide +kernel)⟩

end Formula

end Formulas

import Formulas.Arithmetic.Dual
import Formulas.Proofs.Arithmetic.Ring
import Formulas.Proofs.Operation
import Mathlib.Algebra.DualNumber
import Mathlib.Tactic.LinearCombination

/-! Arithmetics that contain a commutative ring. A result lies in the ring only if what it
comes from does, and a quotient only if its divisor is a unit. Wherever the arithmetic of
values contains a ring, that of pairs of values and slopes contains the dual numbers over it. -/
namespace Formulas

open scoped DualNumber

namespace Dual

variable {R α : Type}

/-- A dual number as a pair of a value and a slope. -/
def pair (number : R → α) (z : R[ε]) : Dual α :=
  ⟨number z.fst, number z.snd⟩

theorem exists_eq_pair {number : R → α} {x : Dual α} {a b : R} (hValue : x.value = number a)
    (hSlope : x.slope = number b) : ∃ z : R[ε], x = pair number z ∧ z.fst = a ∧ z.snd = b :=
  ⟨(a, b), congrArg₂ Dual.mk hValue hSlope, rfl, rfl⟩

end Dual

variable {R α : Type} [CommRing R] [Arithmetic α]

/-- A dual number is a unit if its value is one. -/
instance isLocalHom_fst : IsLocalHom (TrivSqZeroExt.fstHom R R R).toRingHom where
  map_nonunit _ hUnit := TrivSqZeroExt.isUnit_iff_isUnit_fst.mpr hUnit

namespace Arithmetic

/-- The elements of a ring among the values of an arithmetic. -/
structure Contains (number : R → α) : Prop where
  injective : Function.Injective number
  ofNat (n : Nat) : ofNat n = number n
  add_eq {a b : α} {r : R} :
    add a b = number r ↔ ∃ p q, a = number p ∧ b = number q ∧ p + q = r
  sub_eq {a b : α} {r : R} :
    sub a b = number r ↔ ∃ p q, a = number p ∧ b = number q ∧ p - q = r
  mul_eq {a b : α} {r : R} :
    mul a b = number r ↔ ∃ p q, a = number p ∧ b = number q ∧ p * q = r
  div_eq {a b : α} {r : R} :
    div a b = number r ↔ ∃ p q, a = number p ∧ b = number q ∧ IsUnit q ∧ r * q = p
  neg_eq {a : α} {r : R} : neg a = number r ↔ ∃ p, a = number p ∧ -p = r

/-- A root lies in the ring only if what it is the root of does. -/
def ReflectsRoots (number : R → α) : Prop :=
  ∀ {degree : Nat} {a : α} {r : R}, root degree a = number r → ∃ p, a = number p

namespace Contains

variable {number : R → α} (hContains : Contains number)
include hContains

theorem add (p q : R) : Arithmetic.add (number p) (number q) = number (p + q) :=
  hContains.add_eq.mpr ⟨p, q, rfl, rfl, rfl⟩

theorem sub (p q : R) : Arithmetic.sub (number p) (number q) = number (p - q) :=
  hContains.sub_eq.mpr ⟨p, q, rfl, rfl, rfl⟩

theorem mul (p q : R) : Arithmetic.mul (number p) (number q) = number (p * q) :=
  hContains.mul_eq.mpr ⟨p, q, rfl, rfl, rfl⟩

theorem div {p q r : R} (hUnit : IsUnit q) (hProduct : r * q = p) :
    Arithmetic.div (number p) (number q) = number r :=
  hContains.div_eq.mpr ⟨p, q, rfl, rfl, hUnit, hProduct⟩

theorem reciprocal_eq {a : α} {r : R} :
    reciprocal a = number r ↔ ∃ p, a = number p ∧ r * p = 1 := by
  rw [reciprocal, hContains.ofNat, Nat.cast_one, hContains.div_eq]
  constructor
  · rintro ⟨_, q, hOne, rfl, -, rfl⟩
    exact ⟨q, rfl, (hContains.injective hOne).symm⟩
  · rintro ⟨p, rfl, hOne⟩
    exact ⟨1, p, rfl, rfl, .of_mul_eq_one_right r hOne, hOne⟩

omit [CommRing R] [Arithmetic α] hContains in
/-- What is folded up lies in the ring when all its parts do, if that is so for two parts. -/
theorem foldl_eq {g : α → α → α} {g' : R → R → R}
    (hStep : ∀ {a b r}, g a b = number r ↔ ∃ p q, a = number p ∧ b = number q ∧ g' p q = r)
    {a : α} {rest : List α} {r : R} : rest.foldl g a = number r ↔
      ∃ (p : R) (ps : List R), a = number p ∧ rest = ps.map number ∧ ps.foldl g' p = r := by
  induction rest generalizing a with
  | nil =>
      constructor
      · rintro rfl
        exact ⟨r, [], rfl, rfl, rfl⟩
      · rintro ⟨p, ps, rfl, hNone, rfl⟩
        obtain rfl := List.map_eq_nil_iff.mp hNone.symm
        rfl
  | cons b rest ih =>
      rw [List.foldl_cons, ih]
      constructor
      · rintro ⟨_, ps, hFirst, rfl, rfl⟩
        obtain ⟨p, q, rfl, rfl, rfl⟩ := hStep.mp hFirst
        exact ⟨p, q :: ps, rfl, rfl, rfl⟩
      · rintro ⟨p, _, rfl, hRest, rfl⟩
        obtain ⟨q, ps, rfl, rfl, rfl⟩ := List.map_eq_cons_iff.mp hRest.symm
        exact ⟨g' p q, ps, hStep.mpr ⟨p, q, rfl, rfl, rfl⟩, rfl, rfl⟩

/-- A sum lies in the ring when all its terms do. -/
theorem sum_eq {a : α} {rest : List α} {r : R} : sum (a :: rest) = number r ↔
    ∃ (p : R) (ps : List R), a = number p ∧ rest = ps.map number ∧ (p :: ps).sum = r := by
  rw [sum, foldl_eq hContains.add_eq]
  simp only [foldl_add_eq_sum]

/-- A product lies in the ring when all its factors do. -/
theorem product_eq {a : α} {rest : List α} {r : R} : product (a :: rest) = number r ↔
    ∃ (p : R) (ps : List R), a = number p ∧ rest = ps.map number ∧ (p :: ps).prod = r := by
  rw [product, foldl_eq hContains.mul_eq]
  simp only [foldl_mul_eq_prod]

theorem reciprocals_eq {values : List α} {us : List R} :
    values.map reciprocal = us.map number ↔
      ∃ ps, values = ps.map number ∧ List.Forall₂ (fun p u => u * p = 1) ps us := by
  induction values generalizing us with
  | nil =>
      constructor
      · intro hNone
        obtain rfl := List.map_eq_nil_iff.mp hNone.symm
        exact ⟨[], rfl, .nil⟩
      · rintro ⟨ps, hNone, hOnes⟩
        obtain rfl := List.map_eq_nil_iff.mp hNone.symm
        cases hOnes
        rfl
  | cons a rest ih =>
      constructor
      · intro hValues
        obtain ⟨u, us, rfl, hFirst, hRest⟩ := List.map_eq_cons_iff.mp hValues.symm
        obtain ⟨p, rfl, hOne⟩ := hContains.reciprocal_eq.mp hFirst.symm
        obtain ⟨ps, rfl, hOnes⟩ := ih.mp hRest.symm
        exact ⟨p :: ps, rfl, .cons hOne hOnes⟩
      · rintro ⟨ps, hValues, hOnes⟩
        obtain ⟨p, ps, rfl, rfl, rfl⟩ := List.map_eq_cons_iff.mp hValues.symm
        cases hOnes with
        | cons hOne hOnes =>
            rw [List.map_cons, List.map_cons, ih.mpr ⟨ps, rfl, hOnes⟩,
              hContains.reciprocal_eq.mpr ⟨p, rfl, hOne⟩]

variable {op : Operation} {values : List α} {r : R}

/-- What an operation without roots gives in the ring. -/
theorem combine_of_gives {ps : List R} (hGives : op.Gives ps r) :
    combine op (ps.map number) = number r := by
  cases hGives with
  | add p q => exact hContains.add p q
  | sub p q => exact hContains.sub p q
  | mul p q => exact hContains.mul p q
  | div hUnit hProduct => exact hContains.div hUnit hProduct
  | hypot p q =>
      rw [List.map_cons, List.map_cons, List.map_nil, combine, hContains.mul, hContains.mul,
        hContains.add]
  | hmean hLeft hRight hUnit hProduct =>
      rw [List.map_cons, List.map_cons, List.map_nil, combine,
        hContains.reciprocal_eq.mpr ⟨_, rfl, hLeft⟩, hContains.reciprocal_eq.mpr ⟨_, rfl, hRight⟩,
        hContains.add, hContains.ofNat]
      exact hContains.div hUnit (by exact_mod_cast hProduct)
  | negate p => exact hContains.neg_eq.mpr ⟨p, rfl, rfl⟩
  | @arithMean p rest _ hUnit hProduct =>
      have hSum := hContains.sum_eq.mpr ⟨p, rest, rfl, rfl, rfl⟩
      rw [List.map_cons, combine, hSum, hContains.ofNat, List.length_map]
      exact hContains.div hUnit hProduct
  | @harmMean p rest us _ hOnes hUnit hProduct =>
      obtain ⟨u, us, hFirst, hRest, rfl⟩ := List.forall₂_cons_left_iff.mp hOnes
      have hReciprocals := hContains.reciprocals_eq.mpr ⟨rest, rfl, hRest⟩
      have hSum := hContains.sum_eq.mpr
        ⟨u, us, hContains.reciprocal_eq.mpr ⟨p, rfl, hFirst⟩, hReciprocals, rfl⟩
      rw [List.map_cons, combine, List.length_map, hContains.ofNat]
      exact (congrArg _ hSum).trans (hContains.div hUnit hProduct)

/-- A value that lies in the ring comes from operands in the ring. -/
theorem gives_of_combine (hAdmits : op.admits values.length = true) (hRootFree : op ≠ .geomMean)
    (hValue : combine op values = number r) :
    ∃ ps, values = ps.map number ∧ op.Gives ps r := by
  cases op with
  | add =>
      obtain ⟨a, b, rfl⟩ := Operation.exists_pair rfl hAdmits
      obtain ⟨p, q, rfl, rfl, rfl⟩ := hContains.add_eq.mp hValue
      exact ⟨[p, q], rfl, .add p q⟩
  | sub =>
      obtain ⟨a, b, rfl⟩ := Operation.exists_pair rfl hAdmits
      obtain ⟨p, q, rfl, rfl, rfl⟩ := hContains.sub_eq.mp hValue
      exact ⟨[p, q], rfl, .sub p q⟩
  | mul =>
      obtain ⟨a, b, rfl⟩ := Operation.exists_pair rfl hAdmits
      obtain ⟨p, q, rfl, rfl, rfl⟩ := hContains.mul_eq.mp hValue
      exact ⟨[p, q], rfl, .mul p q⟩
  | div =>
      obtain ⟨a, b, rfl⟩ := Operation.exists_pair rfl hAdmits
      obtain ⟨p, q, rfl, rfl, hUnit, hProduct⟩ := hContains.div_eq.mp hValue
      exact ⟨[p, q], rfl, .div hUnit hProduct⟩
  | hypot =>
      obtain ⟨a, b, rfl⟩ := Operation.exists_pair rfl hAdmits
      obtain ⟨_, _, hLeft, hRight, rfl⟩ := hContains.add_eq.mp hValue
      obtain ⟨p, p', rfl, hSame, rfl⟩ := hContains.mul_eq.mp hLeft
      obtain ⟨q, q', rfl, hSame', rfl⟩ := hContains.mul_eq.mp hRight
      obtain rfl := hContains.injective hSame
      obtain rfl := hContains.injective hSame'
      exact ⟨[p, q], rfl, .hypot p q⟩
  | hmean =>
      obtain ⟨a, b, rfl⟩ := Operation.exists_pair rfl hAdmits
      obtain ⟨_, _, hTwo, hSum, hUnit, rfl⟩ := hContains.div_eq.mp hValue
      obtain ⟨u, v, hLeft, hRight, rfl⟩ := hContains.add_eq.mp hSum
      obtain ⟨p, rfl, hOfLeft⟩ := hContains.reciprocal_eq.mp hLeft
      obtain ⟨q, rfl, hOfRight⟩ := hContains.reciprocal_eq.mp hRight
      rw [hContains.ofNat] at hTwo
      have hTwice : r * (u + v) = 2 := by exact_mod_cast (hContains.injective hTwo).symm
      exact ⟨[p, q], rfl, .hmean hOfLeft hOfRight hUnit hTwice⟩
  | negate =>
      obtain ⟨a, rfl⟩ := Operation.exists_single rfl hAdmits
      obtain ⟨p, rfl, rfl⟩ := hContains.neg_eq.mp hValue
      exact ⟨[p], rfl, .negate p⟩
  | arithMean =>
      obtain ⟨a, rest, rfl⟩ := Operation.exists_cons hAdmits
      obtain ⟨_, _, hSum, hCount, hUnit, rfl⟩ := hContains.div_eq.mp hValue
      obtain ⟨p, ps, rfl, rfl, hTotal⟩ := hContains.sum_eq.mp hSum
      rw [hContains.ofNat, List.length_map] at hCount
      obtain rfl := hContains.injective hCount
      exact ⟨p :: ps, rfl, .arithMean hUnit hTotal.symm⟩
  | geomMean => exact absurd rfl hRootFree
  | harmMean =>
      obtain ⟨a, rest, rfl⟩ := Operation.exists_cons hAdmits
      obtain ⟨_, _, hCount, hSum, hUnit, rfl⟩ := hContains.div_eq.mp hValue
      obtain ⟨u, us, hFirst, hRest, rfl⟩ := hContains.sum_eq.mp hSum
      obtain ⟨p, rfl, hOne⟩ := hContains.reciprocal_eq.mp hFirst
      obtain ⟨ps, rfl, hOnes⟩ := hContains.reciprocals_eq.mp hRest
      rw [hContains.ofNat, List.length_map] at hCount
      exact ⟨p :: ps, rfl,
        .harmMean (.cons hOne hOnes) hUnit (hContains.injective hCount).symm⟩

end Contains

end Arithmetic

/-- The two parts of a quotient of dual numbers. -/
theorem mul_eq_iff_of_isUnit {p q r : R[ε]} (hUnit : IsUnit q.fst) :
    r * q = p ↔ r.fst * q.fst = p.fst ∧
      r.snd * (q.fst * q.fst) = p.snd * q.fst - p.fst * q.snd := by
  rw [TrivSqZeroExt.ext_iff, TrivSqZeroExt.fst_mul, DualNumber.snd_mul]
  refine and_congr_right fun hValue => ?_
  constructor
  · intro hSlope
    linear_combination q.fst * hSlope - q.snd * hValue
  · intro hSlope
    refine hUnit.mul_right_cancel ?_
    linear_combination hSlope + q.snd * hValue

namespace Arithmetic.Contains

variable {number : R → α}

/-- Pairs of values and slopes contain the dual numbers. -/
theorem dual (hContains : Contains number) : Contains (Dual.pair number) where
  injective := by
    intro z w hSame
    obtain ⟨hValue, hSlope⟩ := Dual.mk.inj hSame
    exact TrivSqZeroExt.ext (hContains.injective hValue) (hContains.injective hSlope)
  ofNat n := by
    rw [Dual.pair, TrivSqZeroExt.fst_natCast, TrivSqZeroExt.snd_natCast]
    exact congrArg₂ Dual.mk (hContains.ofNat n) ((hContains.ofNat 0).trans (by rw [Nat.cast_zero]))
  add_eq {x y r} := by
    constructor
    · intro hSum
      obtain ⟨hValue, hSlope⟩ := Dual.mk.inj hSum
      obtain ⟨_, _, ha, hb, hValue⟩ := hContains.add_eq.mp hValue
      obtain ⟨_, _, ha', hb', hSlope⟩ := hContains.add_eq.mp hSlope
      obtain ⟨p, rfl, rfl, rfl⟩ := Dual.exists_eq_pair ha ha'
      obtain ⟨q, rfl, rfl, rfl⟩ := Dual.exists_eq_pair hb hb'
      exact ⟨p, q, rfl, rfl, TrivSqZeroExt.ext hValue hSlope⟩
    · rintro ⟨p, q, rfl, rfl, rfl⟩
      exact congrArg₂ Dual.mk (hContains.add ..) (hContains.add ..)
  sub_eq {x y r} := by
    constructor
    · intro hSum
      obtain ⟨hValue, hSlope⟩ := Dual.mk.inj hSum
      obtain ⟨_, _, ha, hb, hValue⟩ := hContains.sub_eq.mp hValue
      obtain ⟨_, _, ha', hb', hSlope⟩ := hContains.sub_eq.mp hSlope
      obtain ⟨p, rfl, rfl, rfl⟩ := Dual.exists_eq_pair ha ha'
      obtain ⟨q, rfl, rfl, rfl⟩ := Dual.exists_eq_pair hb hb'
      exact ⟨p, q, rfl, rfl, TrivSqZeroExt.ext hValue hSlope⟩
    · rintro ⟨p, q, rfl, rfl, rfl⟩
      exact congrArg₂ Dual.mk (hContains.sub ..) (hContains.sub ..)
  mul_eq {x y r} := by
    constructor
    · intro hProduct
      obtain ⟨hValue, hSlope⟩ := Dual.mk.inj hProduct
      obtain ⟨a, b, ha, hb, hValue⟩ := hContains.mul_eq.mp hValue
      obtain ⟨_, _, hLeft, hRight, hSlope⟩ := hContains.add_eq.mp hSlope
      obtain ⟨a', _, ha', hSame, rfl⟩ := hContains.mul_eq.mp hLeft
      obtain rfl := hContains.injective (hb.symm.trans hSame)
      obtain ⟨_, b', hSame, hb', rfl⟩ := hContains.mul_eq.mp hRight
      obtain rfl := hContains.injective (ha.symm.trans hSame)
      obtain ⟨p, rfl, rfl, rfl⟩ := Dual.exists_eq_pair ha ha'
      obtain ⟨q, rfl, rfl, rfl⟩ := Dual.exists_eq_pair hb hb'
      refine ⟨p, q, rfl, rfl, TrivSqZeroExt.ext hValue ?_⟩
      rw [DualNumber.snd_mul, ← hSlope, add_comm]
    · rintro ⟨p, q, rfl, rfl, rfl⟩
      refine congrArg₂ Dual.mk (hContains.mul ..) ?_
      rw [DualNumber.snd_mul, add_comm]
      exact (congrArg₂ _ (hContains.mul ..) (hContains.mul ..)).trans (hContains.add ..)
  div_eq {x y r} := by
    constructor
    · intro hQuotient
      obtain ⟨hValue, hSlope⟩ := Dual.mk.inj hQuotient
      obtain ⟨a, b, ha, hb, hUnit, hValue⟩ := hContains.div_eq.mp hValue
      obtain ⟨_, _, hDifference, hSquare, -, hSlope⟩ := hContains.div_eq.mp hSlope
      obtain ⟨_, _, hLeft, hRight, rfl⟩ := hContains.sub_eq.mp hDifference
      obtain ⟨a', _, ha', hSame, rfl⟩ := hContains.mul_eq.mp hLeft
      obtain rfl := hContains.injective (hb.symm.trans hSame)
      obtain ⟨_, b', hSame, hb', rfl⟩ := hContains.mul_eq.mp hRight
      obtain rfl := hContains.injective (ha.symm.trans hSame)
      rw [hb, hContains.mul] at hSquare
      obtain rfl := hContains.injective hSquare
      obtain ⟨p, rfl, rfl, rfl⟩ := Dual.exists_eq_pair ha ha'
      obtain ⟨q, rfl, rfl, rfl⟩ := Dual.exists_eq_pair hb hb'
      exact ⟨p, q, rfl, rfl, TrivSqZeroExt.isUnit_iff_isUnit_fst.mpr hUnit,
        (mul_eq_iff_of_isUnit hUnit).mpr ⟨hValue, hSlope⟩⟩
    · rintro ⟨p, q, rfl, rfl, hUnit, hProduct⟩
      replace hUnit := TrivSqZeroExt.isUnit_iff_isUnit_fst.mp hUnit
      obtain ⟨hValue, hSlope⟩ := (mul_eq_iff_of_isUnit hUnit).mp hProduct
      refine congrArg₂ Dual.mk (hContains.div hUnit hValue) ?_
      simp only [Dual.pair, hContains.mul, hContains.sub]
      exact hContains.div (hUnit.mul hUnit) hSlope
  neg_eq {x r} := by
    constructor
    · intro hNegation
      obtain ⟨hValue, hSlope⟩ := Dual.mk.inj hNegation
      obtain ⟨_, ha, hValue⟩ := hContains.neg_eq.mp hValue
      obtain ⟨_, ha', hSlope⟩ := hContains.neg_eq.mp hSlope
      obtain ⟨p, rfl, rfl, rfl⟩ := Dual.exists_eq_pair ha ha'
      exact ⟨p, rfl, TrivSqZeroExt.ext hValue hSlope⟩
    · rintro ⟨p, rfl, rfl⟩
      exact congrArg₂ Dual.mk (hContains.neg_eq.mpr ⟨_, rfl, rfl⟩)
        (hContains.neg_eq.mpr ⟨_, rfl, rfl⟩)

/-- The root of a pair of a value and a slope divides by the value and takes the slope as a
factor. -/
theorem reflectsRoots_dual (hContains : Contains number) (hRoots : ReflectsRoots number) :
    ReflectsRoots (Dual.pair number) := by
  intro degree a z hRoot
  obtain ⟨hValue, hSlope⟩ := Dual.mk.inj hRoot
  obtain ⟨p, ha⟩ := hRoots hValue
  obtain ⟨_, _, hChange, -⟩ := hContains.div_eq.mp hSlope
  obtain ⟨_, q, -, ha', -⟩ := hContains.mul_eq.mp hChange
  obtain ⟨w, rfl, -⟩ := Dual.exists_eq_pair ha ha'
  exact ⟨w, rfl⟩

end Arithmetic.Contains

end Formulas

import Formulas.Operation
import Mathlib.Algebra.BigOperators.Group.List.Basic
import Mathlib.Algebra.Group.Units.Hom
import Mathlib.Data.Nat.Cast.Basic
import Mathlib.Data.List.Forall2
import Mathlib.Tactic.Common

/-! Operations without roots on the elements of a commutative ring. Ring homomorphisms keep
their values, and local ones also reflect where these exist. -/
namespace Formulas

variable {R S : Type} [CommRing R] [CommRing S]

theorem foldl_add_eq_sum (a : R) (rest : List R) : rest.foldl (· + ·) a = (a :: rest).sum := by
  rw [List.sum_eq_foldl, List.foldl_cons, zero_add]

theorem foldl_mul_eq_prod (a : R) (rest : List R) : rest.foldl (· * ·) a = (a :: rest).prod := by
  rw [List.prod_eq_foldl, List.foldl_cons, one_mul]

/-- The value that an operation without roots gives to elements of a ring. What is divided by
is a unit. -/
inductive Operation.Gives : Operation → List R → R → Prop
  | add (a b : R) : Gives .add [a, b] (a + b)
  | sub (a b : R) : Gives .sub [a, b] (a - b)
  | mul (a b : R) : Gives .mul [a, b] (a * b)
  | div {a b r : R} (hUnit : IsUnit b) (hProduct : r * b = a) : Gives .div [a, b] r
  | hypot (a b : R) : Gives .hypot [a, b] (a * a + b * b)
  | hmean {a b u v r : R} (hLeft : u * a = 1) (hRight : v * b = 1) (hUnit : IsUnit (u + v))
      (hProduct : r * (u + v) = 2) : Gives .hmean [a, b] r
  | negate (a : R) : Gives .negate [a] (-a)
  | arithMean {a : R} {rest : List R} {r : R} (hUnit : IsUnit ((rest.length + 1 : Nat) : R))
      (hProduct : r * (rest.length + 1 : Nat) = (a :: rest).sum) : Gives .arithMean (a :: rest) r
  | harmMean {a : R} {rest us : List R} {r : R}
      (hReciprocals : List.Forall₂ (fun a u => u * a = 1) (a :: rest) us)
      (hUnit : IsUnit us.sum) (hProduct : r * us.sum = (rest.length + 1 : Nat)) :
      Gives .harmMean (a :: rest) r

namespace Operation.Gives

variable {op : Operation} {as : List R} {r : R}

theorem admits (hGives : op.Gives as r) : op.admits as.length = true := by
  cases hGives <;> simp [Operation.admits, Operation.arity, Arity.admits]

theorem ne_geomMean (hGives : op.Gives as r) : op ≠ .geomMean := by
  rintro rfl
  cases hGives

/-- A homomorphism keeps the values of operations. -/
theorem map (ρ : R →+* S) (hGives : op.Gives as r) : op.Gives (as.map ρ) (ρ r) := by
  cases hGives with
  | add a b => simpa using add (ρ a) (ρ b)
  | sub a b => simpa using sub (ρ a) (ρ b)
  | mul a b => simpa using mul (ρ a) (ρ b)
  | div hUnit hProduct => exact div (hUnit.map ρ) (by rw [← map_mul, hProduct])
  | hypot a b => simpa using hypot (ρ a) (ρ b)
  | @hmean a b u v _ hLeft hRight hUnit hProduct =>
      refine hmean (u := ρ u) (v := ρ v) ?_ ?_ ?_ ?_
      · rw [← map_mul, hLeft, map_one]
      · rw [← map_mul, hRight, map_one]
      · exact map_add ρ u v ▸ hUnit.map ρ
      · rw [← map_add, ← map_mul, hProduct, map_ofNat]
  | negate a => simpa using negate (ρ a)
  | @arithMean a rest _ hUnit hProduct =>
      have hCount : ((rest.length + 1 : Nat) : S) = ρ (rest.length + 1 : Nat) :=
        (map_natCast ρ _).symm
      refine arithMean ?_ ?_
      · rw [List.length_map, hCount]
        exact hUnit.map ρ
      · rw [List.length_map, hCount, ← map_mul, hProduct, map_list_sum, List.map_cons]
  | @harmMean a rest us _ hReciprocals hUnit hProduct =>
      have hSum : (us.map ρ).sum = ρ us.sum := (map_list_sum ρ us).symm
      have hImages : List.Forall₂ (fun a u => u * a = 1) (ρ a :: rest.map ρ) (us.map ρ) := by
        rw [← List.map_cons, List.forall₂_map_left_iff, List.forall₂_map_right_iff]
        refine hReciprocals.imp fun a u hOne => ?_
        rw [← map_mul, hOne, map_one]
      refine harmMean hImages (hSum ▸ hUnit.map ρ) ?_
      rw [hSum, ← map_mul, hProduct, map_natCast, List.length_map]

/-- An element with a reciprocal in the image of a local homomorphism has one itself. -/
theorem exists_reciprocal (ρ : S →+* R) [IsLocalHom ρ] {s : S} {u : R} (hOne : u * ρ s = 1) :
    ∃ t, ρ t = u ∧ t * s = 1 := by
  obtain ⟨t, hInverse⟩ := (isUnit_of_map_unit ρ s (.of_mul_eq_one_right u hOne)).exists_left_inv
  have hImage : ρ t * ρ s = 1 := by rw [← map_mul, hInverse, map_one]
  exact ⟨t, left_inv_eq_right_inv hImage ((mul_comm _ _).trans hOne), hInverse⟩

/-- A quotient in the image of a local homomorphism comes from a quotient. -/
theorem exists_quotient (ρ : S →+* R) [IsLocalHom ρ] {s d : S} {r : R}
    (hUnit : IsUnit (ρ d)) (hProduct : r * ρ d = ρ s) :
    ∃ t, ρ t = r ∧ IsUnit d ∧ t * d = s := by
  obtain ⟨u, hOne⟩ := hUnit.exists_left_inv
  obtain ⟨v, rfl, hInverse⟩ := exists_reciprocal ρ hOne
  refine ⟨s * v, ?_, isUnit_of_map_unit ρ d hUnit, by rw [mul_assoc, hInverse, mul_one]⟩
  rw [map_mul, ← hProduct, mul_assoc, mul_comm (ρ d), hOne, mul_one]

theorem exists_reciprocals (ρ : S →+* R) [IsLocalHom ρ] {zs : List S} {us : List R}
    (hOnes : List.Forall₂ (fun z u => u * ρ z = 1) zs us) :
    ∃ ts, ts.map ρ = us ∧ List.Forall₂ (fun z t => t * z = 1) zs ts := by
  induction hOnes with
  | nil => exact ⟨[], rfl, .nil⟩
  | cons hOne hOnes ih =>
      obtain ⟨t, rfl, hFirst⟩ := exists_reciprocal ρ hOne
      obtain ⟨ts, rfl, hRest⟩ := ih
      exact ⟨t :: ts, rfl, .cons hFirst hRest⟩

/-- A value over the image of a local homomorphism comes from a value. -/
theorem lift (ρ : S →+* R) [IsLocalHom ρ] {zs : List S} (hGives : op.Gives (zs.map ρ) r) :
    ∃ t, ρ t = r ∧ op.Gives zs t := by
  generalize hImages : zs.map ρ = as at hGives
  have hTwo {a b : R} (hPair : zs.map ρ = [a, b]) : ∃ z w, zs = [z, w] ∧ ρ z = a ∧ ρ w = b := by
    obtain ⟨z, w, rfl⟩ := List.length_eq_two.mp (List.length_map ρ ▸ congrArg List.length hPair)
    simpa using hPair
  cases hGives with
  | add a b =>
      obtain ⟨z, w, rfl, rfl, rfl⟩ := hTwo hImages
      exact ⟨z + w, map_add ρ z w, add z w⟩
  | sub a b =>
      obtain ⟨z, w, rfl, rfl, rfl⟩ := hTwo hImages
      exact ⟨z - w, map_sub ρ z w, sub z w⟩
  | mul a b =>
      obtain ⟨z, w, rfl, rfl, rfl⟩ := hTwo hImages
      exact ⟨z * w, map_mul ρ z w, mul z w⟩
  | div hDivisor hQuotient =>
      obtain ⟨z, w, rfl, rfl, rfl⟩ := hTwo hImages
      obtain ⟨t, rfl, hUnit, hProduct⟩ := exists_quotient ρ hDivisor hQuotient
      exact ⟨t, rfl, div hUnit hProduct⟩
  | hypot a b =>
      obtain ⟨z, w, rfl, rfl, rfl⟩ := hTwo hImages
      exact ⟨z * z + w * w, by rw [map_add, map_mul, map_mul], hypot z w⟩
  | hmean hLeft hRight hSum hTwice =>
      obtain ⟨z, w, rfl, rfl, rfl⟩ := hTwo hImages
      obtain ⟨u, rfl, hOfLeft⟩ := exists_reciprocal ρ hLeft
      obtain ⟨v, rfl, hOfRight⟩ := exists_reciprocal ρ hRight
      rw [← map_add, ← map_ofNat ρ 2] at hTwice
      rw [← map_add] at hSum
      obtain ⟨t, rfl, hUnit, hProduct⟩ := exists_quotient ρ hSum hTwice
      exact ⟨t, rfl, hmean hOfLeft hOfRight hUnit hProduct⟩
  | negate a =>
      obtain ⟨z, rfl, rfl⟩ := List.map_eq_singleton_iff.mp hImages
      exact ⟨-z, map_neg ρ z, negate z⟩
  | arithMean hCount hSum =>
      obtain ⟨z, ws, rfl, rfl, rfl⟩ := List.map_eq_cons_iff.mp hImages
      rw [List.length_map, ← map_natCast ρ] at hCount hSum
      rw [← List.map_cons, ← map_list_sum] at hSum
      obtain ⟨t, rfl, hUnit, hProduct⟩ := exists_quotient ρ hCount hSum
      exact ⟨t, rfl, arithMean hUnit hProduct⟩
  | harmMean hOnes hSum hCount =>
      obtain ⟨z, ws, rfl, rfl, rfl⟩ := List.map_eq_cons_iff.mp hImages
      rw [← List.map_cons, List.forall₂_map_left_iff] at hOnes
      obtain ⟨ts, rfl, hReciprocals⟩ := exists_reciprocals ρ hOnes
      rw [List.length_map, ← map_natCast ρ, ← map_list_sum] at hCount
      rw [← map_list_sum] at hSum
      obtain ⟨t, rfl, hUnit, hProduct⟩ := exists_quotient ρ hSum hCount
      exact ⟨t, rfl, harmMean hReciprocals hUnit hProduct⟩

end Operation.Gives

end Formulas

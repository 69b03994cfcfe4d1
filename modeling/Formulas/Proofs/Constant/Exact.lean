import Formulas.Proofs.Binary64.Exact
import Formulas.Proofs.Constant.Text

/-! The exact values of constants. Two constants agree exactly if they stand for the same
value, whatever their kinds, and a constant and its normal form become the same double
precision number, except that zero loses its sign. -/
namespace Formulas.Constant

/-- What a constant stands for: a rational number, an infinity, or no number at all, in
which case it only equals itself. -/
inductive Exact where
  | rational (value : ℚ)
  | infinite (negative : Bool)
  | other (label : Nat)

/-- The exact value of a constant. -/
def exact : Constant → Exact
  | .integer n => .rational n
  | .real (.nan label) => .other label
  | .real (.infinite negative) => .infinite negative
  | .real x => .rational x.toRat

theorem exact_of_isFinite {x : Binary64} (hFinite : x.isFinite = true) :
    exact (.real x) = .rational x.toRat := by
  cases x with
  | nan label => simp [Binary64.isFinite] at hFinite
  | infinite negative => simp [Binary64.isFinite] at hFinite
  | finite negative mantissa exponent hCanonical => rfl

theorem isFinite_of_toInt? {x : Binary64} {n : Int} (hWhole : x.toInt? = some n) :
    x.isFinite = true := by
  cases x with
  | nan label => simp [Binary64.toInt?] at hWhole
  | infinite negative => simp [Binary64.toInt?] at hWhole
  | finite negative mantissa exponent hCanonical => rfl

theorem normal_of_whole {x : Binary64} {n : Int} (hWhole : x.toInt? = some n) :
    normal (.real x) = .integer n := by
  simp [normal, hWhole]

theorem normal_of_fraction {x : Binary64} (hFraction : x.toInt? = none) :
    normal (.real x) = .real x := by
  simp [normal, hFraction]

/-- The normal form has the same exact value. -/
theorem exact_normal (c : Constant) : c.normal.exact = c.exact := by
  cases c with
  | integer n => rfl
  | real x =>
      cases hWhole : x.toInt? with
      | none => rw [normal_of_fraction hWhole]
      | some n =>
          have hFinite := isFinite_of_toInt? hWhole
          rw [normal_of_whole hWhole, exact_of_isFinite hFinite,
            (Binary64.toInt?_eq_some_iff hFinite).mp hWhole, exact]

/-- A finite real without a whole value has no whole exact value. -/
theorem exact_ne_of_fraction {x : Binary64} (hFraction : x.toInt? = none) (n : Int) :
    exact (.real x) ≠ .rational n := by
  intro hExact
  by_cases hFinite : x.isFinite = true
  · rw [exact_of_isFinite hFinite, Exact.rational.injEq,
      ← Binary64.toInt?_eq_some_iff hFinite, hFraction] at hExact
    simp at hExact
  · cases x with
    | nan label => simp [exact] at hExact
    | infinite negative => simp [exact] at hExact
    | finite negative mantissa exponent hCanonical => exact hFinite rfl

/-- Reals without whole values are known from their exact values. -/
theorem eq_of_exact {x y : Binary64} (hFraction : x.toInt? = none)
    (hExact : exact (.real x) = exact (.real y)) : x = y := by
  cases x with
  | nan label => cases y <;> simp_all [exact]
  | infinite negative => cases y <;> simp_all [exact]
  | finite negative mantissa exponent hCanonical =>
      cases y with
      | nan label => exact Exact.noConfusion hExact
      | infinite negative => exact Exact.noConfusion hExact
      | finite negative' mantissa' exponent' hCanonical' =>
          refine Binary64.eq_of_toRat rfl rfl (Exact.rational.inj hExact) fun hZero => ?_
          have hWhole := (Binary64.toInt?_eq_some_iff rfl (n := 0)).mpr (by simpa using hZero)
          simp [hWhole] at hFraction

/-- The normal form is an integer, or a real without a whole value. -/
theorem normal_cases (c : Constant) :
    (∃ n, c.normal = .integer n) ∨ ∃ x, x.toInt? = none ∧ c.normal = .real x := by
  cases c with
  | integer n => exact .inl ⟨n, rfl⟩
  | real x =>
      cases hWhole : x.toInt? with
      | some n => exact .inl ⟨n, normal_of_whole hWhole⟩
      | none => exact .inr ⟨x, hWhole, normal_of_fraction hWhole⟩

/-- Constants agree exactly if they have the same exact value. -/
theorem agrees_iff_exact {c d : Constant} : c.agrees d = true ↔ c.exact = d.exact := by
  rw [agrees_iff, ← exact_normal c, ← exact_normal d]
  constructor
  · exact congrArg exact
  · intro hExact
    rcases normal_cases c with ⟨n, hc⟩ | ⟨x, hx, hc⟩ <;>
      rcases normal_cases d with ⟨m, hd⟩ | ⟨y, hy, hd⟩ <;>
      rw [hc, hd] at hExact ⊢
    · have hValue : (n : ℚ) = m := Exact.rational.inj hExact
      exact congrArg Constant.integer (by exact_mod_cast hValue)
    · exact absurd hExact.symm (exact_ne_of_fraction hy n)
    · exact absurd hExact (exact_ne_of_fraction hx m)
    · exact congrArg Constant.real (eq_of_exact hx hExact)

/-- Zero without its sign; all other constants stay as they are. -/
def dropZeroSign : Constant → Constant
  | .integer n => .integer n
  | .real x => .real x.dropZeroSign

theorem dropZeroSign_of_ne {c : Constant} (hNonzero : c ≠ .real (.zero true)) :
    c.dropZeroSign = c := by
  cases c with
  | integer n => rfl
  | real x => exact congrArg real (Binary64.dropZeroSign_of_ne fun hZero => hNonzero (hZero ▸ rfl))

/-- The normal form becomes the same double precision number, without the sign of zero, or
is likewise too large for one. -/
theorem toBinary64?_normal (c : Constant) :
    c.normal.toBinary64? = c.dropZeroSign.toBinary64? := by
  cases c with
  | integer n => rfl
  | real x =>
      cases hWhole : x.toInt? with
      | some n =>
          have hFinite : x.dropZeroSign.isFinite = true := by
            unfold Binary64.dropZeroSign
            split
            · rfl
            · exact isFinite_of_toInt? hWhole
          rw [normal_of_whole hWhole, toBinary64?, Binary64.ofInt_of_toInt? hWhole, if_pos hFinite]
          rfl
      | none =>
          have hNonzero : Constant.real x ≠ .real (.zero true) := by
            intro hZero
            rw [Constant.real.inj hZero] at hWhole
            exact Binary64.toInt?_zero_ne_none true hWhole
          rw [normal_of_fraction hWhole, dropZeroSign_of_ne hNonzero]

end Formulas.Constant

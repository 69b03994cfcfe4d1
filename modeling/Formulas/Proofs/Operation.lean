import Formulas.Operation
import Mathlib.Data.List.Basic

/-! What an arity says about the number of operands: how many are taken, when an operation
still lacks some, and of which form the admitted lists are. -/
namespace Formulas

namespace Arity

variable {arity : Arity} {available taken : Nat}

/-- The number of operands that an operation takes is admitted and is available. -/
theorem take?_eq_some (hTake : arity.take? available = some taken) :
    arity.admits taken = true ∧ taken ≤ available := by
  cases arity with
  | exactly count =>
      simp only [take?, Option.ite_none_right_eq_some, Option.some.injEq] at hTake
      obtain ⟨hEnough, rfl⟩ := hTake
      exact ⟨by simp [admits], hEnough⟩
  | variadic =>
      simp only [take?, Option.ite_none_right_eq_some, Option.some.injEq] at hTake
      obtain ⟨hEnough, rfl⟩ := hTake
      exact ⟨by simpa [admits] using hEnough, Nat.le_refl _⟩

/-- An operation takes nothing when less than its least number of operands is available. -/
theorem take?_eq_none_iff : arity.take? available = none ↔ available < arity.minimum := by
  cases arity <;> simp [take?, minimum]

/-- An operation takes all that is available when its arity admits that number. -/
theorem take?_of_admits (hAdmits : arity.admits available = true) :
    arity.take? available = some available := by
  cases arity <;> simp_all [admits, take?]

end Arity

namespace Operation

variable {α : Type} {op : Operation} {items : List α}

theorem admits_of_exactly {count given : Nat} (hArity : op.arity = .exactly count) :
    op.admits given = true ↔ given = count := by
  simp [admits, hArity, Arity.admits]

theorem admits_of_variadic {given : Nat} (hArity : op.arity = .variadic) :
    op.admits given = true ↔ 1 ≤ given := by
  simp [admits, hArity, Arity.admits]

/-- The operation can take more operands than it has been given. -/
def TakesMore (op : Operation) (given : Nat) : Prop :=
  ∀ count, op.arity = .exactly count → given < count

theorem takesMore_of_variadic {given : Nat} (hArity : op.arity = .variadic) :
    op.TakesMore given := by
  simp [TakesMore, hArity]

theorem takesMore_of_exactly {count given : Nat} (hArity : op.arity = .exactly count)
    (hMore : given < count) : op.TakesMore given := by
  intro other hOther
  obtain rfl := Arity.exactly.inj (hArity.symm.trans hOther)
  exact hMore

theorem takesMore_of_admits {given rest : Nat} (hAdmits : op.admits (given + (rest + 1)) = true) :
    op.TakesMore given := by
  intro count hArity
  have hCount := (admits_of_exactly hArity).mp hAdmits
  omega

/-- An operation that takes nothing from what it has been given lacks operands. -/
theorem takesMore_of_take?_eq_none {given : Nat} (hFew : op.arity.take? given = none) :
    op.TakesMore given := by
  intro count hArity
  simpa [hArity, Arity.take?] using hFew

theorem take?_zero (op : Operation) : op.arity.take? 0 = none := by
  cases op <;> rfl

/-- An operation with a fixed number of operands leaves what lies below them. -/
theorem take?_of_isVariadic_eq_false {given : Nat} (hExact : op.isVariadic = false)
    (hAdmits : op.admits given = true) (below : Nat) :
    op.arity.take? (given + below) = some given := by
  cases hArity : op.arity with
  | variadic => simp [isVariadic, hArity] at hExact
  | exactly count =>
      obtain rfl := (admits_of_exactly hArity).mp hAdmits
      simp [Arity.take?]

theorem take?_of_isVariadic {available : Nat} (hVariadic : op.isVariadic = true)
    (hSome : 1 ≤ available) : op.arity.take? available = some available := by
  have hArity : op.arity = .variadic := by simpa [isVariadic] using hVariadic
  exact Arity.take?_of_admits ((admits_of_variadic hArity).mpr hSome)

theorem exists_single (hArity : op.arity = .exactly 1)
    (hAdmits : op.admits items.length = true) : ∃ a, items = [a] :=
  List.length_eq_one_iff.mp ((admits_of_exactly hArity).mp hAdmits)

theorem exists_pair (hArity : op.arity = .exactly 2)
    (hAdmits : op.admits items.length = true) : ∃ a b, items = [a, b] :=
  List.length_eq_two.mp ((admits_of_exactly hArity).mp hAdmits)

/-- Every operation has at least one operand. -/
theorem exists_cons (hAdmits : op.admits items.length = true) : ∃ a rest, items = a :: rest := by
  cases items with
  | nil => cases op <;> exact nomatch hAdmits
  | cons a rest => exact ⟨a, rest, rfl⟩

end Operation

end Formulas

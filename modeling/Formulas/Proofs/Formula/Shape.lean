import Formulas.Formula.Basic
import Mathlib.Tactic.Common

/-! Tests that hold at every node of a formula, and formulas with the operands of all
operations in the opposite order. -/
namespace Formulas.Formula

/-- Every constant passes a test, and so does every operation with the number of its operands. -/
def everywhere (constant : Constant → Bool) (operation : Operation → Nat → Bool) :
    Formula → Bool :=
  fold constant (fun _ => true) fun op parts => operation op parts.length && parts.all id

section
variable {constant : Constant → Bool} {operation : Operation → Nat → Bool}

@[simp] theorem everywhere_constant (value : Constant) :
    everywhere constant operation (.constant value) = constant value := rfl

@[simp] theorem everywhere_coordinate (which : Coordinate) :
    everywhere constant operation (.coordinate which) = true := rfl

theorem everywhere_operation {op : Operation} {operands : List Formula} :
    everywhere constant operation (.operation op operands) = true ↔
      operation op operands.length = true ∧
        ∀ f ∈ operands, everywhere constant operation f = true := by
  rw [everywhere, fold_operation]
  simp

end

/-- Every operation has a number of operands that its arity admits. -/
def isWellFormed : Formula → Bool :=
  everywhere (fun _ => true) Operation.admits

theorem isWellFormed_operation {op : Operation} {operands : List Formula} :
    isWellFormed (.operation op operands) = true ↔
      op.admits operands.length = true ∧ ∀ f ∈ operands, f.isWellFormed = true :=
  everywhere_operation

/-- The operands of every operation in the opposite order. -/
def mirror : Formula → Formula :=
  fold .constant .coordinate fun op operands => .operation op operands.reverse

theorem mirror_operation (op : Operation) (operands : List Formula) :
    mirror (.operation op operands) = .operation op (operands.map mirror).reverse :=
  fold_operation ..

@[simp] theorem mirror_mirror (f : Formula) : f.mirror.mirror = f := by
  induction f with
  | constant value => rfl
  | coordinate which => rfl
  | operation op operands ih =>
      have hOperands : operands.map (fun f => f.mirror.mirror) = operands := by
        simpa using List.map_congr_left ih
      simp [mirror_operation, Function.comp_def, hOperands]

@[simp] theorem isOperation_mirror (f : Formula) : f.mirror.isOperation = f.isOperation := by
  cases f with
  | constant value => rfl
  | coordinate which => rfl
  | operation op operands => rw [mirror_operation]; rfl

/-- A test of single nodes does not see the order of operands. -/
@[simp] theorem everywhere_mirror (constant : Constant → Bool)
    (operation : Operation → Nat → Bool) (f : Formula) :
    everywhere constant operation f.mirror = everywhere constant operation f := by
  induction f with
  | constant value => rfl
  | coordinate which => rfl
  | operation op operands ih =>
      rw [Bool.eq_iff_iff, mirror_operation, everywhere_operation, everywhere_operation]
      simp only [List.length_reverse, List.length_map, List.mem_reverse, List.forall_mem_map]
      apply and_congr_right
      intro _
      apply forall₂_congr
      intro f hf
      rw [ih f hf]

@[simp] theorem isWellFormed_mirror (f : Formula) : f.mirror.isWellFormed = f.isWellFormed :=
  everywhere_mirror ..

end Formulas.Formula

import Formulas.Constant
import Formulas.Coordinate
import Formulas.Operation
/-! Formulas: constants, coordinates, and operations applied to operands. The number of
operands is not checked here, so a formula may be malformed. All recursion on formulas
goes through one fold. -/
namespace Formulas

open scoped Natural

inductive Formula where
  | constant (value : Constant)
  | coordinate (which : Coordinate)
  | operation (op : Operation) (operands : List Formula)

namespace Formula

instance : Inhabited Formula := ⟨.coordinate .x⟩

variable {α : Type}

mutual

/-- Replaces the constants, the coordinates and the operations by functions. -/
def fold (constant : Constant → α) (coordinate : Coordinate → α)
    (operation : Operation → List α → α) : Formula → α
  | .constant value => constant value
  | .coordinate which => coordinate which
  | .operation op operands => operation op (foldAll constant coordinate operation operands)

/-- The fold of each formula of a list. -/
def foldAll (constant : Constant → α) (coordinate : Coordinate → α)
    (operation : Operation → List α → α) : List Formula → List α
  | [] => []
  | f :: rest =>
    fold constant coordinate operation f :: foldAll constant coordinate operation rest

end

theorem foldAll_eq_map (constant : Constant → α) (coordinate : Coordinate → α)
    (operation : Operation → List α → α) (operands : List Formula) :
    foldAll constant coordinate operation operands =
      operands.map (fold constant coordinate operation) := by
  induction operands with
  | nil => rfl
  | cons f rest ih => rw [foldAll, ih, List.map_cons]

theorem fold_operation (constant : Constant → α) (coordinate : Coordinate → α)
    (operation : Operation → List α → α) (op : Operation) (operands : List Formula) :
    fold constant coordinate operation (.operation op operands) =
      operation op (operands.map (fold constant coordinate operation)) := by
  rw [fold, foldAll_eq_map]

/-- Induction over a formula and all its operands. -/
@[induction_eliminator]
theorem induct {motive : Formula → Prop} (constant : ∀ value, motive (.constant value))
    (coordinate : ∀ which, motive (.coordinate which))
    (operation : ∀ op operands, (∀ f ∈ operands, motive f) → motive (.operation op operands)) :
    ∀ f, motive f
  | .constant value => constant value
  | .coordinate which => coordinate which
  | .operation op operands =>
    operation op operands fun f _ => induct constant coordinate operation f

mutual

/-- Decides whether two formulas are the same. -/
def decideEq : (a b : Formula) → Decidable (a = b)
  | .constant c, .constant d =>
    if h : c = d then isTrue (h ▸ rfl) else isFalse fun same => h (Formula.constant.inj same)
  | .coordinate c, .coordinate d =>
    if h : c = d then isTrue (h ▸ rfl) else isFalse fun same => h (Formula.coordinate.inj same)
  | .operation op as, .operation op' bs =>
    if hOp : op = op' then
      match decideAllEq as bs with
      | isTrue hOperands => isTrue (hOp ▸ hOperands ▸ rfl)
      | isFalse hOperands => isFalse fun same => hOperands (Formula.operation.inj same).2
    else isFalse fun same => hOp (Formula.operation.inj same).1
  | .constant _, .coordinate _ => isFalse Formula.noConfusion
  | .constant _, .operation .. => isFalse Formula.noConfusion
  | .coordinate _, .constant _ => isFalse Formula.noConfusion
  | .coordinate _, .operation .. => isFalse Formula.noConfusion
  | .operation .., .constant _ => isFalse Formula.noConfusion
  | .operation .., .coordinate _ => isFalse Formula.noConfusion

/-- Decides whether two lists of formulas are the same. -/
def decideAllEq : (as bs : List Formula) → Decidable (as = bs)
  | [], [] => isTrue rfl
  | a :: as, b :: bs =>
    match decideEq a b with
    | isTrue hHead =>
      match decideAllEq as bs with
      | isTrue hTail => isTrue (hHead ▸ hTail ▸ rfl)
      | isFalse hTail => isFalse fun same => hTail (List.cons.inj same).2
    | isFalse hHead => isFalse fun same => hHead (List.cons.inj same).1
  | [], _ :: _ => isFalse nofun
  | _ :: _, [] => isFalse nofun

end

instance : DecidableEq Formula := decideEq

/-- The operands of an operation; a leaf has none. -/
def operands : Formula → List Formula
  | .operation _ operands => operands
  | _ => []

/-- The root is an operation. -/
def isOperation : Formula → Bool
  | .operation .. => true
  | _ => false

/-- The number of nodes. -/
def size : Formula → Nat :=
  fold (fun _ => 1) (fun _ => 1) fun _ sizes => 1 + sizes.sum

/-- The number of nodes on the longest path; one for an operation without operands. -/
def depth : Formula → Nat :=
  fold (fun _ => 1) (fun _ => 1) fun _ depths => 1 + depths.foldl max 0

/-- The formula with all its constants in normal form. -/
def normal : Formula → Formula :=
  fold (fun value => .constant value.normal) .coordinate .operation

/-- Two formulas agree when they have the same shape and their constants agree. -/
def agrees (a b : Formula) : Bool :=
  a.normal = b.normal

/-- The digest of an operation from the digests of its operands. -/
def operationDigest (op : Operation) (digests : List UInt64) : UInt64 :=
  digests.foldl mixHash (mixHash 5 (hash op.ordinal))

/-- Formulas that agree have the same digest. -/
def digest : Formula → UInt64 :=
  fold (fun value => mixHash 2 value.digest) (fun which => mixHash 3 (hash which.index))
    operationDigest

theorem size_operation (op : Operation) (operands : List Formula) :
    size (.operation op operands) = 1 + (operands.map size).sum :=
  fold_operation ..

theorem normal_operation (op : Operation) (operands : List Formula) :
    normal (.operation op operands) = .operation op (operands.map normal) :=
  fold_operation ..

theorem agrees_iff {a b : Formula} : a.agrees b = true ↔ a.normal = b.normal := by
  simp [agrees]

theorem size_pos (f : Formula) : 0 < f.size := by
  cases f with
  | constant value => exact Nat.one_pos
  | coordinate which => exact Nat.one_pos
  | operation op operands => rw [size_operation]; omega

end Formula

end Formulas

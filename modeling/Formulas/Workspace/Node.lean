import Formulas.Formula.Basic
/-! The nodes that formulas are made of. A node may be part of several formulas, and of one
formula at several places. Each node has its own place in memory, where it remembers its size
and its digest once they have been asked for. -/
namespace Formulas

open scoped Natural

/-- What a node remembers. -/
structure Memo where
  size? : Option Nat
  digest? : Option UInt64

/-- A node that remembers nothing. -/
def Memo.blank : Memo := ⟨none, none⟩

/-- What the nodes remember that have been made so far, each at its own address. -/
abbrev Memory := Array Memo

/-- A node is told apart from others by its address alone. -/
inductive Node where
  | constant (value : Constant) (address : Nat)
  | coordinate (which : Coordinate) (address : Nat)
  | operation (op : Operation) (operands : List Node) (address : Nat)

namespace Node

mutual

/-- The formula that begins at a node. -/
def plain : Node → Formula
  | .constant value _ => .constant value
  | .coordinate which _ => .coordinate which
  | .operation op operands _ => .operation op (plainAll operands)

/-- The formulas that begin at the nodes of a list. -/
def plainAll : List Node → List Formula
  | [] => []
  | node :: rest => plain node :: plainAll rest

end

/-- A new node, which remembers nothing. -/
def make (build : Nat → Node) : StateM Memory Node :=
  modifyGet fun memory => (build memory.size, memory.push .blank)

/-- New nodes for a formula, the operands before the operation. -/
def lay : Formula → StateM Memory Node :=
  Formula.fold (fun value => make (.constant value)) (fun which => make (.coordinate which))
    fun op operands => do
      let operands ← operands.mapM id
      make (.operation op operands)

/-- New nodes for the formula that begins at a node. -/
def copy (node : Node) : StateM Memory Node :=
  lay node.plain

end Node

/-- What a node finds from what its operands find, and where it remembers it. -/
structure Feature (α : Type) where
  read : Memo → Option α
  write : α → Memo → Memo
  constant : Constant → α
  coordinate : Coordinate → α
  operation : Operation → List α → α

namespace Feature

variable {α : Type}

/-- The number of nodes. -/
def size : Feature Nat where
  read := Memo.size?
  write n memo := { memo with size? := some n }
  constant _ := 1
  coordinate _ := 1
  operation _ sizes := 1 + sizes.sum

/-- The same for nodes of formulas that agree. -/
def digest : Feature UInt64 where
  read := Memo.digest?
  write d memo := { memo with digest? := some d }
  constant value := (Formula.constant value).digest
  coordinate which := (Formula.coordinate which).digest
  operation := Formula.operationDigest

/-- What is remembered at an address, or what is found now and remembered from then on. -/
def recollect (feature : Feature α) (address : Nat) (find : StateM Memory α) : StateM Memory α :=
  fun memory =>
    match memory[address]?.bind feature.read with
    | some a => (a, memory)
    | none =>
      let found := find memory
      (found.1, found.2.modify address (feature.write found.1))

mutual

/-- The feature of a node. All nodes that are asked for it on the way remember it. -/
def ask (feature : Feature α) : Node → StateM Memory α
  | .constant value address => feature.recollect address (pure (feature.constant value))
  | .coordinate which address => feature.recollect address (pure (feature.coordinate which))
  | .operation op operands address =>
    feature.recollect address (feature.operation op <$> askAll feature operands)

/-- The feature of each node of a list. -/
def askAll (feature : Feature α) : List Node → StateM Memory (List α)
  | [] => pure []
  | node :: rest => do
    let a ← ask feature node
    let others ← askAll feature rest
    return a :: others

end

end Feature

end Formulas

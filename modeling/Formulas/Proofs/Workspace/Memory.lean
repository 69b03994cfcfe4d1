import Formulas.Proofs.Result
import Formulas.Workspace.Node

/-! What nodes remember is true. A book gives the formula that each address stands for. It only
grows, since a node begins the same formula for ever, so that whatever fits the book at one time
fits it at all later ones. -/
namespace Formulas

variable {α β γ δ : Type} {book later : List Formula} {memory : Memory}

/-- What is remembered of a formula is what would be found anew. -/
structure Memo.Fits (f : Formula) (memo : Memo) : Prop where
  size : ∀ n ∈ memo.size?, n = f.size
  digest : ∀ d ∈ memo.digest?, d = f.digest

/-- There is a memo for each formula of the book, and it fits. -/
structure Memory.Fits (book : List Formula) (memory : Memory) : Prop where
  size : memory.size = book.length
  memos : ∀ ⦃address : Nat⦄ ⦃f : Formula⦄ ⦃memo : Memo⦄,
    book[address]? = some f → memory[address]? = some memo → memo.Fits f

/-- For the node and for all below it the book gives the formulas that begin there. -/
inductive Node.IsListed (book : List Formula) : Node → Prop where
  | constant {value : Constant} {address : Nat}
      (hEntry : book[address]? = some (.constant value)) : IsListed book (.constant value address)
  | coordinate {which : Coordinate} {address : Nat}
      (hEntry : book[address]? = some (.coordinate which)) :
      IsListed book (.coordinate which address)
  | operation {op : Operation} {operands : List Node} {address : Nat}
      (hEntry : book[address]? = some (.operation op (operands.map Node.plain)))
      (hOperands : ∀ node ∈ operands, IsListed book node) :
      IsListed book (.operation op operands address)

/-- A node of the book that begins a formula. -/
structure Node.Shows (book : List Formula) (node : Node) (f : Formula) : Prop where
  listed : node.IsListed book
  plain_eq : node.plain = f

/-- A relation that holds still when the book has grown. -/
def IsLasting (related : List Formula → α → β → Prop) : Prop :=
  ∀ ⦃book later a b⦄, book <+: later → related book a b → related later a b

/-- Whatever has been made and remembered by now, an action leaves a memory that fits a book grown
from that of before, and its result is related to the one that is expected. -/
def Gives (related : List Formula → α → β → Prop) (book : List Formula) (action : StateM Memory α)
    (expected : β) : Prop :=
  ∀ ⦃before memory⦄, book <+: before → Memory.Fits before memory →
    ∃ after, before <+: after ∧ Memory.Fits after (action memory).2 ∧
      related after (action memory).1 expected

theorem getElem?_grown (hPrefix : book <+: later) {address : Nat} {f : Formula}
    (hEntry : book[address]? = some f) : later[address]? = some f := by
  obtain ⟨more, rfl⟩ := hPrefix
  obtain ⟨hLess, -⟩ := List.getElem?_eq_some_iff.mp hEntry
  rw [List.getElem?_append_left hLess, hEntry]

theorem Node.IsListed.mono {node : Node} (hPrefix : book <+: later) (hListed : node.IsListed book) :
    node.IsListed later := by
  induction hListed with
  | constant hEntry => exact .constant (getElem?_grown hPrefix hEntry)
  | coordinate hEntry => exact .coordinate (getElem?_grown hPrefix hEntry)
  | operation hEntry _ ih => exact .operation (getElem?_grown hPrefix hEntry) ih

theorem Node.isLasting_shows : IsLasting Node.Shows := fun _ _ _ _ hPrefix hShows =>
  ⟨hShows.listed.mono hPrefix, hShows.plain_eq⟩

theorem IsLasting.forall₂ {related : List Formula → α → β → Prop} (hLasting : IsLasting related) :
    IsLasting fun book => List.Forall₂ (related book) :=
  fun _ _ _ _ hPrefix => List.Forall₂.imp fun _ _ => hLasting hPrefix

theorem isLasting_eq : IsLasting fun _ => @Eq α := fun _ _ _ _ _ hSame => hSame

/-! How actions follow one another. -/

namespace Gives

variable {related : List Formula → α → β → Prop} {related' : List Formula → γ → δ → Prop}
  {action : StateM Memory α} {b : β}

theorem mono (hPrefix : book <+: later) (hAction : Gives related book action b) :
    Gives related later action b :=
  fun _ _ hBefore => hAction (hPrefix.trans hBefore)

protected theorem pure {a : α} (hRelated : ∀ ⦃later⦄, book <+: later → related later a b) :
    Gives related book (pure a) b :=
  fun before _ hBefore hFits => ⟨before, List.prefix_rfl, hFits, hRelated hBefore⟩

protected theorem bind {next : α → StateM Memory γ} {d : δ} (hFirst : Gives related book action b)
    (hNext : ∀ ⦃later a⦄, book <+: later → related later a b → Gives related' later (next a) d) :
    Gives related' book (action >>= next) d := by
  intro before memory hBefore hFits
  obtain ⟨mid, hMid, hMidFits, hRelated⟩ := hFirst hBefore hFits
  obtain ⟨after, hAfter, hResult⟩ :=
    hNext (hBefore.trans hMid) hRelated List.prefix_rfl hMidFits
  exact ⟨after, hMid.trans hAfter, hResult⟩

/-- Actions for the members of a list that follow one another. -/
theorem mapM (hLasting : IsLasting related) {action : γ → StateM Memory α} {as : List γ}
    {bs : List β} (hEach : List.Forall₂ (fun a b => Gives related book (action a) b) as bs) :
    Gives (fun book => List.Forall₂ (related book)) book (as.mapM action) bs := by
  induction hEach with
  | nil => exact .pure fun _ _ => .nil
  | cons hFirst _ ih =>
      rw [List.mapM_cons]
      refine hFirst.bind fun later a hLater hRelated => ?_
      refine (ih.mono hLater).bind fun last rest hLast hOthers => ?_
      exact .pure fun final hEnd =>
        .cons (hLasting (hLast.trans hEnd) hRelated) (hLasting.forall₂ hEnd hOthers)

end Gives

/-! How nodes are made. -/

namespace Node

theorem plainAll_eq_map (nodes : List Node) : plainAll nodes = nodes.map plain := by
  induction nodes with
  | nil => rfl
  | cons node rest ih => rw [plainAll, ih, List.map_cons]

theorem plain_operation (op : Operation) (operands : List Node) (address : Nat) :
    plain (.operation op operands address) = .operation op (operands.map plain) := by
  rw [plain, plainAll_eq_map]

/-- A new node takes the address behind all others. -/
theorem gives_make {build : Nat → Node} {f : Formula}
    (hBuild : ∀ ⦃later⦄, book <+: later → (build later.length).Shows (later ++ [f]) f) :
    Gives Shows book (make build) f := by
  intro before memory hBefore hFits
  have hSize : memory.size = before.length := hFits.size
  refine ⟨before ++ [f], List.prefix_append .., ⟨?_, ?_⟩, ?_⟩
  · show (memory.push .blank).size = _
    rw [Array.size_push, hSize, List.length_append, List.length_singleton]
  · intro address g memo hEntry hMemo
    replace hMemo : (memory.push .blank)[address]? = some memo := hMemo
    rw [Array.getElem?_push] at hMemo
    split_ifs at hMemo with hNew
    · obtain rfl := Option.some.inj hMemo
      exact ⟨nofun, nofun⟩
    · have hOld := (Array.getElem?_eq_some_iff.mp hMemo).1
      rw [List.getElem?_append_left (by omega)] at hEntry
      exact hFits.memos hEntry hMemo
  · show (build memory.size).Shows _ _
    rw [hSize]
    exact hBuild hBefore

theorem gives_make_constant (book : List Formula) (value : Constant) :
    Gives Shows book (make (.constant value)) (.constant value) :=
  gives_make fun _ _ => ⟨.constant List.getElem?_concat_length, rfl⟩

theorem gives_make_coordinate (book : List Formula) (which : Coordinate) :
    Gives Shows book (make (.coordinate which)) (.coordinate which) :=
  gives_make fun _ _ => ⟨.coordinate List.getElem?_concat_length, rfl⟩

theorem gives_make_operation (op : Operation) {operands : List Node} {formulas : List Formula}
    (hOperands : List.Forall₂ (Shows book) operands formulas) :
    Gives Shows book (make (.operation op operands)) (.operation op formulas) := by
  have hFormulas : operands.map plain = formulas := by
    rw [← List.forall₂_eq_eq_eq, List.forall₂_map_left_iff]
    exact hOperands.imp fun _ _ hShows => hShows.plain_eq
  refine gives_make fun later hLater => ⟨.operation ?_ fun node hNode => ?_, ?_⟩
  · rw [hFormulas, List.getElem?_concat_length]
  · obtain ⟨f, hf⟩ := Result.exists_of_forall₂ hOperands node hNode
    exact hf.listed.mono (hLater.trans (List.prefix_append ..))
  · rw [plain_operation, hFormulas]

/-- The operands are made first, from left to right. -/
theorem lay_operation (op : Operation) (operands : List Formula) :
    lay (.operation op operands) = (do
      let nodes ← operands.mapM lay
      make (.operation op nodes)) := by
  rw [lay, Formula.fold_operation, List.mapM_map]
  rfl

theorem gives_lay (book : List Formula) (f : Formula) : Gives Shows book (lay f) f := by
  induction f generalizing book with
  | constant value => exact gives_make_constant book value
  | coordinate which => exact gives_make_coordinate book which
  | operation op operands ih =>
      rw [lay_operation]
      refine (Gives.mapM isLasting_shows (List.forall₂_same.mpr fun f hf => ih f hf book)).bind ?_
      exact fun later nodes _ hNodes => gives_make_operation op hNodes

theorem gives_copy {node : Node} {f : Formula} (hShows : node.Shows book f) :
    Gives Shows book node.copy f := by
  rw [copy, hShows.plain_eq]
  exact gives_lay book f

end Node

/-! What nodes find and remember. -/

namespace Feature

variable {feature : Feature α}

/-- The feature of a formula, found anew. -/
def ofFormula (feature : Feature α) : Formula → α :=
  Formula.fold feature.constant feature.coordinate feature.operation

/-- What is remembered of a formula is its feature, and its feature can be remembered of it. -/
structure IsTrue (feature : Feature α) : Prop where
  read : ∀ ⦃f : Formula⦄ ⦃memo : Memo⦄, memo.Fits f →
    ∀ a ∈ feature.read memo, a = feature.ofFormula f
  write : ∀ ⦃f : Formula⦄ ⦃memo : Memo⦄, memo.Fits f →
    (feature.write (feature.ofFormula f) memo).Fits f

theorem isTrue_size : size.IsTrue where
  read _ _ hFits := hFits.size
  write _ _ hFits := ⟨fun _ hn => (Option.some.inj hn).symm, hFits.digest⟩

theorem isTrue_digest : digest.IsTrue where
  read _ _ hFits := hFits.digest
  write _ _ hFits := ⟨hFits.size, fun _ hd => (Option.some.inj hd).symm⟩

/-- What is remembered is not looked for. -/
theorem recollect_of_some {address : Nat} {find : StateM Memory α} {a : α}
    (hRead : memory[address]?.bind feature.read = some a) :
    feature.recollect address find memory = (a, memory) := by
  simp only [recollect, hRead]

theorem recollect_of_none {address : Nat} {find : StateM Memory α}
    (hRead : memory[address]?.bind feature.read = none) :
    feature.recollect address find memory =
      ((find memory).1, (find memory).2.modify address (feature.write (find memory).1)) := by
  simp only [recollect, hRead]

/-- A memory still fits when the feature of a formula comes to be remembered of it. -/
theorem fits_modify (hTrue : feature.IsTrue) {address : Nat} {f : Formula}
    (hEntry : book[address]? = some f) (hFits : Memory.Fits book memory) :
    Memory.Fits book (memory.modify address (feature.write (feature.ofFormula f))) where
  size := by rw [Array.size_modify, hFits.size]
  memos other g memo hOther hMemo := by
    rw [Array.getElem?_modify] at hMemo
    split_ifs at hMemo with hSame
    · obtain ⟨old, hOld, rfl⟩ := Option.map_eq_some_iff.mp hMemo
      subst hSame
      obtain rfl : f = g := Option.some.inj (hEntry.symm.trans hOther)
      exact hTrue.write (hFits.memos hOther hOld)
    · exact hFits.memos hOther hMemo

/-- What is recalled at an address is the feature of the formula there, if what is found is. -/
theorem gives_recollect (hTrue : feature.IsTrue) {address : Nat} {f : Formula}
    (hEntry : book[address]? = some f) {find : StateM Memory α}
    (hFind : Gives (fun _ => Eq) book find (feature.ofFormula f)) :
    Gives (fun _ => Eq) book (feature.recollect address find) (feature.ofFormula f) := by
  intro before memory hBefore hFits
  cases hRead : memory[address]?.bind feature.read with
  | some a =>
      rw [recollect_of_some hRead]
      obtain ⟨memo, hMemo, ha⟩ := Option.bind_eq_some_iff.mp hRead
      have hKnown := hFits.memos (getElem?_grown hBefore hEntry) hMemo
      exact ⟨before, List.prefix_rfl, hFits, hTrue.read hKnown a ha⟩
  | none =>
      -- Nodes below may have come to remember things before this one does.
      rw [recollect_of_none hRead]
      obtain ⟨after, hAfter, hAfterFits, hFound⟩ := hFind hBefore hFits
      refine ⟨after, hAfter, ?_, hFound⟩
      rw [hFound]
      exact fits_modify hTrue (getElem?_grown (hBefore.trans hAfter) hEntry) hAfterFits

theorem askAll_eq_mapM (feature : Feature α) (nodes : List Node) :
    feature.askAll nodes = nodes.mapM feature.ask := by
  induction nodes with
  | nil => rfl
  | cons node rest ih => rw [askAll, ih, List.mapM_cons]

/-- Whatever nodes remember, the answer of a node is the feature of its formula. -/
theorem gives_ask (hTrue : feature.IsTrue) {node : Node} (hListed : node.IsListed book) :
    Gives (fun _ => Eq) book (feature.ask node) (feature.ofFormula node.plain) := by
  induction hListed with
  | constant hEntry => exact gives_recollect hTrue hEntry (.pure fun _ _ => rfl)
  | coordinate hEntry => exact gives_recollect hTrue hEntry (.pure fun _ _ => rfl)
  | @operation op operands address hEntry hOperands ih =>
      have hEach : Gives (fun _ => List.Forall₂ Eq) book (operands.mapM feature.ask)
          (operands.map fun node => feature.ofFormula node.plain) :=
        .mapM isLasting_eq (List.forall₂_map_right_iff.mpr (List.forall₂_same.mpr ih))
      rw [Node.plain_operation]
      refine gives_recollect hTrue hEntry ?_
      rw [askAll_eq_mapM, map_eq_pure_bind]
      refine hEach.bind fun later parts _ hParts => .pure fun _ _ => ?_
      rw [List.forall₂_eq_eq_eq] at hParts
      rw [hParts, ofFormula, Formula.fold_operation, List.map_map]
      rfl

end Feature

end Formulas

import Formulas.Proofs.Formula.Rules
import Formulas.Proofs.Workspace.Memory
import Formulas.Workspace.Slope

/-! The derivative that is made for a node. Whatever nodes the formula shares with others, the new
nodes begin the derivative of the formula, or what fails is what fails for the formula. -/
namespace Formulas

variable {α β γ δ : Type} {book later : List Formula}

/-- The result of a making is related to the one that is expected, whatever has been made before. -/
def Makes (related : List Formula → α → β → Prop) (book : List Formula) (making : Making α)
    (expected : Except Failure β) : Prop :=
  Gives (fun book => Result.AreRelated (related book)) book making.run expected

namespace Makes

variable {related : List Formula → α → β → Prop} {related' : List Formula → γ → δ → Prop}
  {making : Making α} {expected : Except Failure β}

theorem mono (hPrefix : book <+: later) (hMaking : Makes related book making expected) :
    Makes related later making expected :=
  Gives.mono hPrefix hMaking

theorem of_eq {other : Except Failure β} (hSame : other = expected)
    (hMaking : Makes related book making expected) : Makes related book making other :=
  hSame ▸ hMaking

protected theorem pure (hLasting : IsLasting related) {a : α} {b : β} (hRelated : related book a b) :
    Makes related book (pure a) (.ok b) :=
  Gives.pure fun _ hLater => .ok (hLasting hLater hRelated)

protected theorem throw (failure : Failure) :
    Makes related book (throw failure) (.error failure) :=
  Gives.pure fun _ _ => .error failure

theorem lift {action : StateM Memory α} {b : β} (hAction : Gives related book action b) :
    Makes related book (liftM action) (.ok b) := by
  intro before memory hBefore hFits
  obtain ⟨after, hAfter, hAfterFits, hRelated⟩ := hAction hBefore hFits
  exact ⟨after, hAfter, hAfterFits, .ok hRelated⟩

protected theorem bind {next : α → Making γ} {next' : β → Except Failure δ}
    (hFirst : Makes related book making expected)
    (hNext : ∀ ⦃later a b⦄, book <+: later → related later a b →
      Makes related' later (next a) (next' b)) :
    Makes related' book (making >>= next) (expected >>= next') := by
  rw [Makes, ExceptT.run_bind]
  refine Gives.bind hFirst fun later result hLater hRelated => ?_
  cases hRelated with
  | ok hRelated => exact hNext hLater hRelated
  | error e => exact Gives.pure fun _ _ => .error e

/-- Where a first value is certain, only what follows it matters. -/
theorem bind_ok {next : α → Making γ} {b : β} {final : Except Failure δ}
    (hFirst : Makes related book making (.ok b))
    (hNext : ∀ ⦃later a⦄, book <+: later → related later a b → Makes related' later (next a) final) :
    Makes related' book (making >>= next) final := by
  rw [Makes, ExceptT.run_bind]
  refine Gives.bind hFirst fun later result hLater hRelated => ?_
  cases hRelated with
  | ok hRelated => exact hNext hLater hRelated

/-- What is folded up step by step, from things that are related one by one. -/
theorem foldlM (hLasting : IsLasting related) (hItems : IsLasting related')
    {step : α → γ → Making α} {combine : β → δ → β}
    (hStep : ∀ ⦃later a b x y⦄, book <+: later → related later a b → related' later x y →
      Makes related later (step a x) (.ok (combine b y)))
    {xs : List γ} {ys : List δ} (hEach : List.Forall₂ (related' book) xs ys) {a : α} {b : β}
    (hFirst : related book a b) :
    Makes related book (xs.foldlM step a) (.ok (ys.foldl combine b)) := by
  induction xs generalizing book ys a b with
  | nil =>
      cases hEach
      exact .pure hLasting hFirst
  | cons x xs ih =>
      obtain _ | ⟨hItem, hRest⟩ := hEach
      rw [List.foldlM_cons, List.foldl_cons]
      refine (hStep List.prefix_rfl hFirst hItem).bind_ok fun later a' hLater hNext => ?_
      exact ih (fun _ _ _ _ _ hLast => hStep (hLater.trans hLast)) (hItems.forall₂ hLater hRest) hNext

end Makes

/-! The nodes of a rule. -/

namespace Node

theorem makes_integer (book : List Formula) (n : Int) :
    Makes Shows book (integer n) (.ok (.constant (.integer n))) :=
  .lift (gives_make_constant book _)

theorem makes_pair (op : Operation) {left right : Making Node} {f g : Except Failure Formula}
    (hLeft : Makes Shows book left f) (hRight : Makes Shows book right g) :
    Makes Shows book (pair op left right) (do
      let a ← f
      let b ← g
      .ok (.operation op [a, b])) := by
  refine hLeft.bind fun mid a a' hMid hA => ?_
  refine (hRight.mono hMid).bind fun later b b' hLater hB => ?_
  exact .lift (gives_make_operation op (.cons (isLasting_shows hLater hA) (.cons hB .nil)))

end Node

/-- A part whose node begins a formula, and whose slope makes the derivative of that formula. -/
structure Part.Shows (name : String) (book : List Formula) (part : Part) (f : Formula) : Prop where
  node : part.node.Shows book f
  slope : Makes Node.Shows book part.slope (f.derivative name)

namespace Part

open Formula Node

variable {name : String} {a b : Part} {f g : Formula}

theorem isLasting_shows : IsLasting (Shows name) := fun _ _ _ _ hPrefix hShows =>
  ⟨Node.isLasting_shows hPrefix hShows.node, hShows.slope.mono hPrefix⟩

theorem Shows.copy (hShows : a.Shows name book f) : Makes Node.Shows book a.copy (.ok f) :=
  .lift (gives_copy hShows.node)

theorem makes_constant (name : String) (book : List Formula) (value : Constant) :
    Makes (Shows name) book (constant value) (.ok (.constant value)) :=
  Makes.bind_ok (.lift (gives_make_constant book value)) fun later _ _ hNode =>
    .pure isLasting_shows ⟨hNode, makes_integer later 0⟩

/-- A rule makes the derivative of an operation. -/
def IsRule (name : String) (op : Operation) (rule : Part → Part → Making Node) : Prop :=
  ∀ ⦃book a b f g⦄, a.Shows name book f → b.Shows name book g →
    Makes Node.Shows book (rule a b) (derivative name (.operation op [f, g]))

theorem makes_hold {op : Operation} {rule : Part → Part → Making Node} (hRule : IsRule name op rule)
    (hLeft : a.Shows name book f) (hRight : b.Shows name book g) :
    Makes (Shows name) book (hold op rule a b) (.ok (.operation op [f, g])) := by
  have hNode := gives_make_operation op (.cons hLeft.node (.cons hRight.node .nil))
  refine Makes.bind_ok (.lift hNode) fun later node hLater hNode => ?_
  exact .pure isLasting_shows
    ⟨hNode, hRule (isLasting_shows hLater hLeft) (isLasting_shows hLater hRight)⟩

theorem isRule_add : IsRule name .add addSlope := by
  intro book a b f g hLeft hRight
  rw [derivative_pair name .add rfl nofun]
  exact makes_pair .add hLeft.slope hRight.slope

theorem isRule_sub : IsRule name .sub subSlope := by
  intro book a b f g hLeft hRight
  rw [derivative_pair name .sub rfl nofun]
  exact makes_pair .sub hLeft.slope hRight.slope

theorem isRule_mul : IsRule name .mul mulSlope := by
  intro book a b f g hLeft hRight
  rw [derivative_pair name .mul rfl nofun]
  refine .of_eq ?_ (makes_pair .add (makes_pair .mul hLeft.slope hRight.copy)
    (makes_pair .mul hLeft.copy hRight.slope))
  cases f.derivative name <;> cases g.derivative name <;> rfl

theorem isRule_div : IsRule name .div divSlope := by
  intro book a b f g hLeft hRight
  rw [derivative_pair name .div rfl nofun]
  refine .of_eq ?_ (makes_pair .div
    (makes_pair .sub (makes_pair .mul hLeft.slope hRight.copy)
      (makes_pair .mul hLeft.copy hRight.slope))
    (makes_pair .mul hRight.copy hRight.copy))
  cases f.derivative name <;> cases g.derivative name <;> rfl

theorem isRule_hypot : IsRule name .hypot hypotSlope := by
  intro book a b f g hLeft hRight
  rw [derivative_pair name .hypot rfl nofun]
  refine .of_eq ?_ (makes_pair .mul (makes_integer book 2)
    (makes_pair .add (makes_pair .mul hLeft.copy hLeft.slope)
      (makes_pair .mul hRight.copy hRight.slope)))
  cases f.derivative name <;> cases g.derivative name <;> rfl

theorem isRule_hmean : IsRule name .hmean hmeanSlope := by
  intro book a b f g hLeft hRight
  have hSquare {c : Part} {h : Formula} (hOperand : c.Shows name book h) :=
    makes_pair .mul hOperand.copy hOperand.copy
  have hSum := makes_pair .add hLeft.copy hRight.copy
  rw [← differentiate_eq_derivative, Formula.differentiate, differentiate_eq_derivative,
    differentiate_eq_derivative]
  refine .of_eq ?_ (makes_pair .mul (makes_integer book 2)
    (makes_pair .div
      (makes_pair .add (makes_pair .mul (hSquare hLeft) hRight.slope)
        (makes_pair .mul (hSquare hRight) hLeft.slope))
      (makes_pair .mul hSum hSum)))
  cases g.derivative name <;> cases f.derivative name <;> rfl

theorem makes_negateSlope (hOperand : a.Shows name book f) :
    Makes Node.Shows book (negateSlope a) (derivative name (.operation .negate [f])) := by
  rw [← differentiate_eq_derivative, Formula.differentiate, differentiate_eq_derivative]
  refine hOperand.slope.bind fun later node slope _ hSlope => ?_
  exact .lift (gives_make_operation .negate (.cons hSlope .nil))

variable {first : Part} {rest operands : List Part} {fs : List Formula}

theorem makes_arithMeanSlope (hFirst : first.Shows name book f)
    (hRest : List.Forall₂ (Shows name book) rest fs) :
    Makes Node.Shows book (arithMeanSlope first rest)
      (derivative name (.operation .arithMean (f :: fs))) := by
  have hSum := Makes.foldlM isLasting_shows isLasting_shows
    (fun _ _ _ _ _ _ => makes_hold isRule_add) hRest hFirst
  rw [derivative_via_total]
  refine hSum.bind_ok fun later sum _ hSum => ?_
  refine .of_eq ?_ (makes_pair .div hSum.slope (makes_integer later _))
  rw [hRest.length_eq]
  rfl

theorem makes_copiedMean (hOperands : List.Forall₂ (Shows name book) operands fs) :
    Makes Node.Shows book (copiedMean operands) (.ok (.operation .geomMean fs)) := by
  have hCopies : Gives (fun book => List.Forall₂ (Node.Shows book)) book
      (operands.mapM fun part => part.node.copy) fs :=
    .mapM Node.isLasting_shows (hOperands.imp fun _ _ hShows => gives_copy hShows.node)
  exact (Makes.lift hCopies).bind_ok fun later nodes _ hNodes =>
    .lift (gives_make_operation .geomMean hNodes)

/-- The copies of the operands are made anew for each factor. -/
theorem makes_copiedPower (hFirst : first.Shows name book f)
    (hRest : List.Forall₂ (Shows name book) rest fs) :
    Makes Node.Shows book (copiedPower first rest) (.ok (meanPower f fs)) := by
  refine (makes_integer book 1).bind_ok fun mid one hMid hOne => ?_
  refine .foldlM Node.isLasting_shows isLasting_shows ?_ (isLasting_shows.forall₂ hMid hRest) hOne
  intro later power power' _ _ hLater hPower _
  have hMean := makes_copiedMean (isLasting_shows.forall₂ (hMid.trans hLater) (.cons hFirst hRest))
  exact makes_pair .mul (.pure Node.isLasting_shows hPower) hMean

theorem makes_heldProduct (hFirst : first.Shows name book f)
    (hRest : List.Forall₂ (Shows name book) rest fs) :
    Makes (Shows name) book (heldProduct first rest) (.ok (sharedProduct f fs)) := by
  refine (makes_constant name book _).bind_ok fun mid share hMid hShare => ?_
  have hProduct := Makes.foldlM isLasting_shows isLasting_shows
    (fun _ _ _ _ _ _ => makes_hold isRule_mul) (isLasting_shows.forall₂ hMid hRest)
    (isLasting_shows hMid hFirst)
  refine hProduct.bind_ok fun later product hLater hProduct => ?_
  rw [hRest.length_eq] at hShare
  exact makes_hold isRule_mul (isLasting_shows hLater hShare) hProduct

theorem makes_geomMeanSlope (hFirst : first.Shows name book f)
    (hRest : List.Forall₂ (Shows name book) rest fs) :
    Makes Node.Shows book (geomMeanSlope first rest)
      (derivative name (.operation .geomMean (f :: fs))) := by
  rw [derivative_via_product]
  refine (makes_copiedPower hFirst hRest).bind_ok fun mid power hMid hPower => ?_
  have hProduct := makes_heldProduct (isLasting_shows hMid hFirst)
    (isLasting_shows.forall₂ hMid hRest)
  refine hProduct.bind_ok fun later product hLater hProduct => ?_
  exact makes_pair .div hProduct.slope
    (.pure Node.isLasting_shows (Node.isLasting_shows hLater hPower))

theorem makes_addReciprocal (hSum : a.Shows name book f) (hOperand : b.Shows name book g) :
    Makes (Shows name) book (addReciprocal a b) (.ok (plus f (quotient (natural 1) g))) := by
  refine (makes_constant name book _).bind_ok fun mid one hMid hOne => ?_
  refine (makes_hold isRule_div hOne (isLasting_shows hMid hOperand)).bind_ok ?_
  intro later reciprocal hLater hReciprocal
  exact makes_hold isRule_add (isLasting_shows (hMid.trans hLater) hSum) hReciprocal

theorem makes_heldQuotient (hOperands : List.Forall₂ (Shows name book) operands fs) :
    Makes (Shows name) book (heldQuotient operands) (.ok (countOverReciprocals fs)) := by
  refine (makes_constant name book _).bind_ok fun mid zero hMid hZero => ?_
  have hSum := Makes.foldlM isLasting_shows isLasting_shows
    (fun _ _ _ _ _ _ => makes_addReciprocal) (isLasting_shows.forall₂ hMid hOperands) hZero
  refine hSum.bind_ok fun later sum hLater hSum => ?_
  refine (makes_constant name later _).bind_ok fun last count hLast hCount => ?_
  rw [hOperands.length_eq] at hCount
  exact makes_hold isRule_div hCount (isLasting_shows hLast hSum)

theorem makes_harmMeanSlope (hOperands : List.Forall₂ (Shows name book) operands fs) :
    Makes Node.Shows book (harmMeanSlope operands)
      (derivative name (.operation .harmMean fs)) := by
  rw [derivative_via_quotient]
  exact (makes_heldQuotient hOperands).bind_ok fun later quotient _ hQuotient => hQuotient.slope

theorem IsRule.makes {op : Operation} {rule : Part → Part → Making Node}
    (hRule : IsRule name op rule) (hOperands : List.Forall₂ (Shows name book) [a, b] fs) :
    Makes Node.Shows book (rule a b) (derivative name (.operation op fs)) := by
  obtain _ | ⟨hLeft, _ | ⟨hRight, ⟨⟩⟩⟩ := hOperands
  exact hRule hLeft hRight

/-- The rule for an operation makes its derivative, or fails like it. -/
theorem makes_operationSlope (op : Operation)
    (hOperands : List.Forall₂ (Shows name book) operands fs) :
    Makes Node.Shows book (operationSlope op operands) (derivative name (.operation op fs)) := by
  unfold operationSlope
  split
  · exact isRule_add.makes hOperands
  · exact isRule_sub.makes hOperands
  · exact isRule_mul.makes hOperands
  · exact isRule_div.makes hOperands
  · obtain _ | ⟨hOperand, ⟨⟩⟩ := hOperands
    exact makes_negateSlope hOperand
  · exact isRule_hypot.makes hOperands
  · exact isRule_hmean.makes hOperands
  · obtain _ | ⟨hFirst, hRest⟩ := hOperands
    exact makes_arithMeanSlope hFirst hRest
  · obtain _ | ⟨hFirst, hRest⟩ := hOperands
    exact makes_geomMeanSlope hFirst hRest
  · cases hOperands
    exact .throw .divisionByZero
  · exact makes_harmMeanSlope hOperands
  · -- What is left are the numbers of operands that no rule takes.
    have hRule : op.slopeFailure? fs.length = some (.operandCount op operands.length) := by
      rw [← hOperands.length_eq]
      cases op with
      | arithMean | geomMean =>
          cases operands <;> simp_all [Operation.slopeFailure?, Operation.arity]
      | harmMean => simp_all
      | negate => simp_all [Operation.slopeFailure?, Operation.arity, List.length_eq_one_iff]
      | _ => simp_all [Operation.slopeFailure?, Operation.arity, List.length_eq_two]
    rw [derivative_of_slopeFailure name hRule]
    exact .throw _

end Part

namespace Node

theorem parts_eq_map (name : String) (nodes : List Node) :
    parts name nodes = nodes.map (part name) := by
  induction nodes with
  | nil => rfl
  | cons node rest ih => rw [parts, ih, List.map_cons]

theorem shows_part (name : String) {node : Node} (hListed : node.IsListed book) :
    (node.part name).Shows name book node.plain := by
  induction hListed with
  | constant hEntry => exact ⟨⟨.constant hEntry, rfl⟩, makes_integer book 0⟩
  | @coordinate which address hEntry => exact ⟨⟨.coordinate hEntry, rfl⟩, makes_integer book _⟩
  | @operation op operands address hEntry hOperands ih =>
      rw [part, plain_operation, parts_eq_map]
      refine ⟨⟨.operation hEntry hOperands, plain_operation ..⟩, Part.makes_operationSlope op ?_⟩
      exact List.forall₂_map_left_iff.mpr (List.forall₂_map_right_iff.mpr (List.forall₂_same.mpr ih))

/-- Whatever nodes are shared and whatever has been made before, the derivative that is made for a
node is that of its formula. -/
theorem makes_differentiate (name : String) {node : Node} (hListed : node.IsListed book) :
    Makes Shows book (node.differentiate name) (node.plain.derivative name) :=
  (shows_part name hListed).slope

end Node

end Formulas

import Formulas.Proofs.Reading.Advance
import Formulas.Proofs.Reading.Phrase

/-! How text is read in which operations may stand between, before or after their operands. A
term does nothing but put its formula on the stack, whatever operations wait for it. -/
namespace Formulas.Reading

variable {s : Settings} {st : State} {tokens : List Token} {op : Operation} {f : Formula}
  {parts operands : List Formula}

namespace State

/-- An operation that comes now finds its operands behind it: it counts them from the top of
the stack. -/
def IsReady (st : State) : Prop :=
  st.group.waiting = [] → st.group.start = st.stack.length

/-- Nothing has been read in the current group. -/
def IsFresh (st : State) : Prop :=
  st.group.waiting = [] ∧ st.group.start = st.stack.length

/-- The end of the current group puts one formula on the stack that was there before. -/
def EndsWith (s : Settings) (st : State) (f : Formula) (last : State) : Prop :=
  last.outer = st.outer ∧ last.group.start = st.group.start ∧
    flush s last.stack last.notices last.group.waiting = .ok (f :: st.stack, st.notices)

/-- An operation has been met, and so many of its operands. -/
def expecting (s : Settings) (op : Operation) (parts : List Formula) (st : State) : State :=
  settleGroup s { st with
    stack := parts.reverse ++ st.stack
    group := { st.group with waiting := ⟨op, st.stack.length⟩ :: st.group.waiting } }

/-- An operation waits as long as it can take more operands. -/
theorem expecting_of_takesMore (hMore : op.TakesMore parts.length) :
    st.expecting s op parts = { st with
      stack := parts.reverse ++ st.stack
      group := { st.group with waiting := ⟨op, st.stack.length⟩ :: st.group.waiting } } := by
  cases hArity : op.arity with
  | variadic => simp [expecting, settleGroup, settle, hArity]
  | exactly count =>
      have hFew : ¬ count ≤ parts.length := Nat.not_le.mpr (hMore count hArity)
      simp [expecting, settleGroup, settle, hArity, hFew]

/-- An operation that takes a fixed number of operands is applied to them at once. -/
theorem expecting_of_exactly (hForward : s.isBackward = false)
    (hArity : op.arity = .exactly operands.length) :
    st.expecting s op operands = st.push s (.operation op operands) := by
  simp [expecting, push, settleGroup, settle, hArity, applyTop, Settings.arrange, hForward]

/-- One more operand, while the operation waits. -/
theorem push_expecting (f : Formula) (hMore : op.TakesMore parts.length) :
    (st.expecting s op parts).push s f = st.expecting s op (parts ++ [f]) := by
  rw [expecting_of_takesMore hMore]
  simp [push, expecting]

theorem isReady_expecting (hMore : op.TakesMore parts.length) :
    (st.expecting s op parts).IsReady := by
  rw [expecting_of_takesMore hMore]
  simp [IsReady]

theorem step_operation (hForm : s.form.allowsWaiting = true) (op : Operation)
    (next? : Option Token) :
    st.step s (.operation op) next? = .ok (st.meetWaiting s op) :=
  if_pos hForm

theorem step_of_isReady (hForm : s.form.allowsWaiting = true) (hReady : st.IsReady)
    (op : Operation) (next? : Option Token) :
    st.step s (.operation op) next? = .ok (st.expecting s op []) := by
  have hFew : op.arity.take? 0 = none := op.take?_zero
  rw [step_operation hForm, meetWaiting,
    expecting_of_takesMore (Operation.takesMore_of_take?_eq_none hFew)]
  cases hWaiting : st.group.waiting with
  | cons w rest => simp [await, hWaiting]
  | nil =>
      have hStart : st.group.start = st.stack.length := hReady hWaiting
      simp [available, hStart, hFew, await, hWaiting]

theorem IsFresh.isReady (hFresh : st.IsFresh) : st.IsReady :=
  fun _ => hFresh.2

/-- One formula in a group without waiting operations is what the group ends with. -/
theorem IsFresh.endsWith (hFresh : st.IsFresh) (f : Formula) :
    st.EndsWith s f { st with stack := f :: st.stack } :=
  ⟨rfl, rfl, by rw [hFresh.1]; rfl⟩

/-- The second operand of an operation between its operands completes it. -/
theorem step_between (hForm : s.form.allowsWaiting = true) (hFresh : st.IsFresh)
    (hArity : op.arity = .exactly 2) (next? : Option Token) :
    ({ st with stack := f :: st.stack } : State).step s (.operation op) next? =
      .ok (st.expecting s op [f]) := by
  have hMore : op.TakesMore [f].length := Operation.takesMore_of_exactly hArity Nat.one_lt_two
  rw [step_operation hForm, expecting_of_takesMore hMore]
  simp [meetWaiting, hFresh.1, hFresh.2, available, hArity, Arity.take?, await]

/-- An operation behind its operands takes all formulas of its group. -/
theorem step_after (hForm : s.form.allowsWaiting = true) (hForward : s.isBackward = false)
    (hFresh : st.IsFresh) (hAdmits : op.admits operands.length = true) (next? : Option Token) :
    ({ st with stack := operands.reverse ++ st.stack } : State).step s (.operation op) next? =
      .ok { st with stack := .operation op operands :: st.stack } := by
  have hTake : op.arity.take? operands.length = some operands.length :=
    Arity.take?_of_admits hAdmits
  rw [step_operation hForm]
  simp [meetWaiting, hFresh.1, hFresh.2, available, hTake, applyTop, Settings.arrange, hForward]

/-- The end of a group gives a mean in it all that is there. -/
theorem endsWith_expecting (hForward : s.isBackward = false) (hFresh : st.IsFresh)
    (hArity : op.arity = .variadic) (hSome : operands ≠ []) :
    st.EndsWith s (.operation op operands) (st.expecting s op operands) := by
  have hMore : op.TakesMore operands.length := Operation.takesMore_of_variadic hArity
  have hTake : op.arity.take? operands.length = some operands.length := by
    simpa [hArity, Arity.take?, Nat.one_le_iff_ne_zero] using hSome
  rw [expecting_of_takesMore hMore]
  refine ⟨rfl, rfl, ?_⟩
  simp [flush, hTake, hFresh.1, applyTop, Settings.arrange, hForward]

/-- The closing bracket behind a group that comes to one formula leaves that formula. -/
theorem step_closer_of_endsWith {last : State} (hForm : s.form.allowsWaiting = true)
    (hForward : s.isBackward = false) (hEnd : st.openGroup.EndsWith s f last)
    (hInside : s.strict = true → f.isOperation = true) (next? : Option Token) :
    last.step s .closer next? = .ok (st.push s f) := by
  obtain ⟨hOuter, hStart, hFlush⟩ := hEnd
  have hClose : last.closeWaiting s = .ok (st.push s f) := by
    rw [closeWaiting, hOuter]
    simp only [openGroup] at hStart hFlush ⊢
    rw [hFlush, Result.ok_bind]
    refine if_neg ?_
    rintro ⟨hStrict, hRefused⟩
    exact hRefused ⟨by simp [available, hStart], hInside hStrict⟩
  rw [← Settings.closer_of_forward hForward, step_closes, if_pos hForm, hClose,
    Result.mapError_ok]

end State

namespace Phrase

-- The recursion is on the derivation. The state stays general, since brackets and operations
-- that wait change it for what they have inside or behind them.
mutual

/-- An atom puts its formula on the stack, in any state. -/
theorem Atom.leads (hForm : s.form.allowsWaiting = true) {tokens : List Token} {f : Formula}
    (atom : Atom s.strict tokens f) (st : State) : Leads s st tokens (st.push s f) := by
  match atom with
  | .leaf hLeaf => exact .single (step_leaf hLeaf)
  | .bracket body hInside =>
      have hForward := Settings.isBackward_of_allowsWaiting hForm
      obtain ⟨last, hBody, hEnd⟩ := body.leads hForm st.openGroup ⟨rfl, rfl⟩
      exact .cons (step_opener hForward)
        (hBody.trans (.single (State.step_closer_of_endsWith hForm hForward hEnd hInside)))

theorem Atoms.leads (hForm : s.form.allowsWaiting = true) {tokens : List Token}
    {operands : List Formula} (atoms : Atoms s.strict tokens operands) (st : State)
    (hWaiting : st.group.waiting = []) :
    Leads s st tokens { st with stack := operands.reverse ++ st.stack } := by
  match atoms with
  | .nil => exact .refl st
  | .cons first later =>
      have hFirst := first.leads hForm st
      rw [push_of_waiting_nil hWaiting] at hFirst
      simpa using hFirst.trans (later.leads hForm _ hWaiting)

/-- So does a term where its operation, if it has one, finds no operands before it. -/
theorem Term.leads (hForm : s.form.allowsWaiting = true) {tokens : List Token} {f : Formula}
    (term : Term s.strict tokens f) (st : State) (hReady : st.IsReady) :
    Leads s st tokens (st.push s f) := by
  match term with
  | .atom atom => exact atom.leads hForm st
  | @Term.call _ op tokens operands hArity terms =>
      have hAdmits : op.admits (0 + operands.length) = true :=
        (Operation.admits_of_exactly hArity).mpr (Nat.zero_add _)
      have hTerms := terms.leads hForm st op [] hAdmits
      rw [List.nil_append,
        State.expecting_of_exactly (Settings.isBackward_of_allowsWaiting hForm) hArity] at hTerms
      exact .cons (State.step_of_isReady hForm hReady op) hTerms

/-- Terms become the operands of the operation that expects them. -/
theorem Terms.leads (hForm : s.form.allowsWaiting = true) {tokens : List Token}
    {operands : List Formula} (terms : Terms s.strict tokens operands) (st : State)
    (op : Operation) (parts : List Formula)
    (hAdmits : op.admits (parts.length + operands.length) = true) :
    Leads s (st.expecting s op parts) tokens (st.expecting s op (parts ++ operands)) := by
  match terms with
  | .nil => simpa using Leads.refl (st.expecting s op parts)
  | @Terms.cons _ tokens more f rest first later =>
      have hMore : op.TakesMore parts.length := Operation.takesMore_of_admits hAdmits
      have hRest : op.admits ((parts ++ [f]).length + rest.length) = true := by
        simpa [Nat.add_assoc, Nat.add_comm 1] using hAdmits
      have hFirst := first.leads hForm (st.expecting s op parts) (State.isReady_expecting hMore)
      rw [State.push_expecting f hMore] at hFirst
      simpa using hFirst.trans (later.leads hForm st op (parts ++ [f]) hRest)

/-- A chain comes to one formula in its group. -/
theorem Chain.leads (hForm : s.form.allowsWaiting = true) {tokens : List Token} {f : Formula}
    (chain : Chain s.strict tokens f) (st : State) (hFresh : st.IsFresh) :
    Leads s st tokens { st with stack := f :: st.stack } := by
  match chain with
  | .single term =>
      rw [← push_of_waiting_nil hFresh.1]
      exact term.leads hForm st hFresh.isReady
  | @Chain.step _ op tokens more f g chain hArity term =>
      have hMore : op.TakesMore [f].length := Operation.takesMore_of_exactly hArity Nat.one_lt_two
      have hBoth : (st.expecting s op [f]).push s g =
          { st with stack := .operation op [f, g] :: st.stack } := by
        rw [State.push_expecting g hMore]
        exact (State.expecting_of_exactly (Settings.isBackward_of_allowsWaiting hForm) hArity).trans
          (push_of_waiting_nil hFresh.1 _)
      have hTerm := term.leads hForm (st.expecting s op [f]) (State.isReady_expecting hMore)
      rw [hBoth] at hTerm
      exact (chain.leads hForm st hFresh).trans
        (.cons (State.step_between hForm hFresh hArity) hTerm)

/-- A body is what its group ends with. -/
theorem Body.leads (hForm : s.form.allowsWaiting = true) {tokens : List Token} {f : Formula}
    (body : Body s.strict tokens f) (st : State) (hFresh : st.IsFresh) :
    ∃ last, Leads s st tokens last ∧ st.EndsWith s f last := by
  have hForward := Settings.isBackward_of_allowsWaiting hForm
  match body with
  | .chain chain => exact ⟨_, chain.leads hForm st hFresh, hFresh.endsWith f⟩
  | @Body.mean _ op tokens operands hArity hSome terms =>
      have hCount : 1 ≤ 0 + operands.length := by
        rw [Nat.zero_add]
        exact List.length_pos_of_ne_nil hSome
      have hTerms := terms.leads hForm st op []
        ((Operation.admits_of_variadic hArity).mpr hCount)
      exact ⟨_, .cons (State.step_of_isReady hForm hFresh.isReady op) hTerms,
        State.endsWith_expecting hForward hFresh hArity hSome⟩
  | .after hAdmits atoms =>
      exact ⟨_, (atoms.leads hForm st hFresh.1).trans
        (.single (State.step_after hForm hForward hFresh hAdmits)), hFresh.endsWith _⟩

end

/-- Text that is a body is read to the formula of the body, without any notice but that of the
end. -/
theorem read_of_body (hForm : s.form.allowsWaiting = true) (body : Body s.strict tokens f) :
    read s tokens = ⟨.ok [f], [.finished tokens.length s]⟩ := by
  have hForward := Settings.isBackward_of_allowsWaiting hForm
  have hFresh : State.initial.IsFresh := ⟨rfl, rfl⟩
  obtain ⟨last, hBody, hOuter, -, hFlush⟩ := body.leads hForm .initial hFresh
  have hOrder := Settings.order_of_forward hForward tokens
  have hFinish : last.finish s = .ok ([f], []) := (finish_eq_ok hOuter).mpr ⟨hFlush, fun _ => rfl⟩
  rw [read, hOrder]
  exact run_eq_iff.mpr ⟨last, [], hBody none, hFinish, rfl⟩

end Phrase

/-- Where operations may wait, every text of the grammar is read to the formula that the
grammar gives it; strict reading wants no leaf alone in brackets. So each operation of a
formula may be written between, before or after its operands, whatever is done with others,
and the outermost brackets may be left out. -/
theorem read_phrase (hForm : s.form.allowsWaiting = true) :
    (∀ tokens f, Phrase.Body false tokens f →
      (s.strict = true → ¬ Phrase.EnclosesLeaf tokens) →
        read s tokens = ⟨.ok [f], [.finished tokens.length s]⟩) ∧
      ∀ f tokens, f.isWellFormed = true → Phrase.Mixed f tokens ∨ Phrase.Bare f tokens →
        read s tokens = ⟨.ok [f], [.finished tokens.length s]⟩ := by
  constructor
  · intro tokens f body hBare
    apply Phrase.read_of_body hForm
    cases hStrict : s.strict with
    | false => exact body
    | true => exact body.strict (hBare hStrict)
  · intro f tokens hWellFormed hWritten
    apply Phrase.read_of_body hForm
    rcases hWritten with mixed | bare
    · exact mixed.body hWellFormed
    · exact bare.body_of_isWellFormed hWellFormed

/-- A chain with an operation behind and one before its operands, and a quotient of which each
operation is written in a form of its own. -/
theorem read_phrase_quotient :
    let s : Settings := ⟨.infixed, true⟩
    let one : Formula := .constant (.integer 1)
    let chain := ["(", "1", "y", "+", ")", "*", "negate", "x"].map Token.ofText
    let product : Formula := .operation .mul
      [.operation .add [one, .coordinate .y], .operation .negate [.coordinate .x]]
    let mixed := ["(", "y", "1", "-", ")", "/", "(", "arithMean", "x", "1", ")"].map Token.ofText
    let quotient : Formula := .operation .div
      [.operation .sub [.coordinate .y, one], .operation .arithMean [.coordinate .x, one]]
    read s chain = ⟨.ok [product], [.finished 8 s]⟩ ∧
      read s mixed = ⟨.ok [quotient], [.finished 11 s]⟩ := by
  intro s one chain product mixed quotient
  obtain ⟨hBody, hMixed⟩ := read_phrase (s := s) rfl
  have hOne : (Token.number (.integer 1)).leaf? = some one := rfl
  have hX : (Token.coordinate .x).leaf? = some (.coordinate .x) := rfl
  have hY : (Token.coordinate .y).leaf? = some (.coordinate .y) := rfl
  have hChain : chain = [.opener, .number (.integer 1), .coordinate .y, .operation .add, .closer,
    .operation .mul, .operation .negate, .coordinate .x] := by decide
  have hTokens : mixed = [.opener, .coordinate .y, .number (.integer 1), .operation .sub,
    .closer, .operation .div, .opener, .operation .arithMean, .coordinate .x,
    .number (.integer 1), .closer] := by decide
  rw [hChain, hTokens]
  constructor
  · have hSum : Phrase.Atom false _ (.operation .add [one, .coordinate .y]) :=
      .bracket (.after rfl (.cons (.leaf hOne) (.cons (.leaf hY) .nil))) fun _ => rfl
    have hNegate : Phrase.Term false _ (.operation .negate [.coordinate .x]) :=
      .call rfl (.cons (.atom (.leaf hX)) .nil)
    have hBare : ¬ Phrase.EnclosesLeaf [.opener, .number (.integer 1), .coordinate .y,
        .operation .add, .closer, .operation .mul, .operation .negate, .coordinate .x] := by
      rintro ⟨token, f, -, hInside⟩
      simp [List.infix_cons_iff] at hInside
    exact hBody _ _ (.chain (.step (.single (.atom hSum)) rfl hNegate)) fun _ => hBare
  · have hLeft : Phrase.Mixed (.operation .sub [.coordinate .y, one]) _ :=
      .bracket (.after (.cons (.leaf hY) (.cons (.leaf hOne) .nil)))
    have hRight : Phrase.Mixed (.operation .arithMean [.coordinate .x, one]) _ :=
      .bracket (.before (.cons (.leaf hX) (.cons (.leaf hOne) .nil)))
    exact hMixed _ _ (by decide) (.inr (.between rfl hLeft hRight))

end Formulas.Reading

import Formulas.Proofs.Reading.Leniency

/-! Operations that find their operands before them. Where operations may wait, such an
operation is applied at once, so that a text in which all operations come after enough
operands is read as if none of them could wait. -/
namespace Formulas.Reading

variable {s : Settings} {st last : State} {token : Token} {next? : Option Token}
  {tokens : List Token}

/-- What has been noted is reported at the end. -/
theorem mem_notices_run {notice : Notice} (count : Nat) (hNotice : notice ∈ st.notices) :
    notice ∈ (run s count st tokens).notices := by
  induction tokens generalizing st with
  | nil =>
      cases hFinish : st.finish s with
      | error what => simp [run, hFinish, stop, hNotice]
      | ok left =>
          obtain ⟨start, hCourse⟩ := finish_course hFinish
          simp [run, hFinish, hCourse.notices_suffix.mem hNotice]
  | cons token rest ih =>
      cases hStep : st.step s token rest.head? with
      | error fault => cases fault <;> simp [run, hStep, stop, hNotice]
      | ok next =>
          rw [run_of_step hStep]
          exact ih ((step_course hStep).notices_suffix.mem hNotice)

/-! Single steps of a reader in which no operation waits. -/

namespace State

theorem settleGroup_of_idle (hIdle : st.Idle) : st.settleGroup s = st := by
  obtain ⟨stack, ⟨start, waiting⟩, outer, notices⟩ := st
  obtain rfl : waiting = [] := hIdle _ (List.mem_cons_self ..)
  rfl

/-- An operation that has its operands is applied to the same ones. -/
theorem meetWaiting_of_idle (hWaits : s.form.allowsWaiting = true) (hIdle : st.Idle)
    {op : Operation} (hEnough : op.arity.take? st.available ≠ none) :
    st.meetBracketed ⟨.postfixed, false⟩ op next? = .ok (st.meetWaiting s op) := by
  have hNone : st.group.waiting = [] := hIdle _ (List.mem_cons_self ..)
  have hForward := Settings.isBackward_of_allowsWaiting hWaits
  obtain ⟨count, hTake⟩ := Option.ne_none_iff_exists'.mp hEnough
  have hApply : applyTop ⟨.postfixed, false⟩ op count st.stack = applyTop s op count st.stack := by
    rw [applyTop, applyTop, Settings.arrange, Settings.arrange, hForward]
    rfl
  simp [meetBracketed, meetWaiting, hNone, hTake, hApply]

/-- The end of a group in which no operation waits applies nothing. -/
theorem closeWaiting_of_idle (hLenient : s.strict = false) (hIdle : st.Idle) :
    st.closeBracketed ⟨.postfixed, false⟩ next? = st.closeWaiting s := by
  obtain ⟨stack, ⟨start, waiting⟩, outer, notices⟩ := st
  obtain rfl : waiting = [] := hIdle _ (List.mem_cons_self ..)
  cases outer with
  | nil => simp [closeWaiting, closeBracketed, hLenient]
  | cons parent outer =>
      have hParent : State.Idle ⟨stack, parent, outer, notices⟩ := fun g hg =>
        hIdle g (List.mem_cons_of_mem _ hg)
      simp [closeWaiting, closeBracketed, flush, hLenient, settleGroup_of_idle hParent]

/-- While no operation waits, a step is the same whether operations may wait or not, unless
it meets one that lacks operands. -/
theorem step_of_idle (hWaits : s.form.allowsWaiting = true) (hLenient : s.strict = false)
    (hIdle : st.Idle)
    (hEnough : ∀ op, token = .operation op → op.arity.take? st.available ≠ none) :
    st.step ⟨.postfixed, false⟩ token next? = st.step s token next? := by
  have hForward := Settings.isBackward_of_allowsWaiting hWaits
  have hNone : st.group.waiting = [] := hIdle _ (List.mem_cons_self ..)
  cases token with
  | opener => rw [step_opener hForward, step_opener rfl]
  | closer =>
      have hClose : st.closeBracketed ⟨.postfixed, false⟩ next? = st.closeWaiting s :=
        closeWaiting_of_idle hLenient hIdle
      have hStep : st.step s s.closer next? = _ := step_closes next?
      rw [if_pos hWaits, ← hClose, Settings.closer_of_forward hForward] at hStep
      exact hStep.symm
  | operation op =>
      have hMeet : st.meetBracketed ⟨.postfixed, false⟩ op next? = .ok (st.meetWaiting s op) :=
        meetWaiting_of_idle hWaits hIdle (hEnough op rfl)
      simp only [step, hMeet, hWaits, if_true]
      rfl
  | coordinate which =>
      rw [step_leaf rfl, step_leaf rfl, push_of_waiting_nil hNone, push_of_waiting_nil hNone]
  | number value =>
      rw [step_leaf rfl, step_leaf rfl, push_of_waiting_nil hNone, push_of_waiting_nil hNone]
  | oversized => rfl
  | unknown text => simp [step, hLenient]

/-- At the end of a text no operation is applied if none waits. -/
theorem finish_of_idle (hLenient : s.strict = false) (hIdle : st.Idle) :
    st.finish s = .ok (st.stack, st.notices) := by
  obtain ⟨stack, group, outer, notices⟩ := st
  have hGroups : finishGroups s stack notices group outer = .ok (stack, notices) := by
    induction outer generalizing group with
    | nil =>
        have hNone : group.waiting = [] := hIdle _ (List.mem_cons_self ..)
        simp [finishGroups, hNone, flush]
    | cons parent outer ih =>
        have hNone : group.waiting = [] := hIdle _ (List.mem_cons_self ..)
        have hOuter := ih parent fun g hg => hIdle g (List.mem_cons_of_mem _ hg)
        obtain ⟨start, waiting⟩ := parent
        obtain rfl : waiting = [] := hIdle _ (List.mem_cons_of_mem _ (List.mem_cons_self ..))
        simpa [finishGroups, hNone, flush, settle] using hOuter
  simp [finish, hLenient, hGroups]

end State

/-- An operation that lacks operands where none can wait is reported as lost. -/
theorem enough_of_run_cons {rest : List Token} {count : Nat}
    (hKept : (run ⟨.postfixed, false⟩ count st (token :: rest)).notices.filterMap
      Notice.lost? = []) {op : Operation} (hToken : token = .operation op) :
    op.arity.take? st.available ≠ none := by
  intro hFew
  subst hToken
  have hStep : st.step ⟨.postfixed, false⟩ (.operation op) rest.head? =
      .ok (st.note (.starved op)) := by
    simp [State.step, Notation.allowsWaiting, State.meetBracketed, hFew]
  rw [run_of_step hStep] at hKept
  have hNoted : Notice.starved op ∈ (st.note (.starved op)).notices := List.mem_cons_self ..
  have hLost := List.filterMap_eq_nil_iff.mp hKept _ (mem_notices_run count hNoted)
  simp [Notice.lost?] at hLost

/-- As long as no operation lacks operands, readers that may and that may not let operations
wait go through the same states. -/
theorem advance_of_idle {passed left : List Token} {count : Nat}
    (hWaits : s.form.allowsWaiting = true) (hLenient : s.strict = false) (hIdle : st.Idle)
    (hKept : (run ⟨.postfixed, false⟩ count st (passed ++ left)).notices.filterMap
      Notice.lost? = []) :
    st.advance ⟨.postfixed, false⟩ left.head? passed = st.advance s left.head? passed := by
  induction passed generalizing st with
  | nil => rfl
  | cons token rest ih =>
      rw [List.cons_append] at hKept
      have hSame : st.step ⟨.postfixed, false⟩ token (rest.head?.or left.head?) =
          st.step s token (rest.head?.or left.head?) :=
        State.step_of_idle hWaits hLenient hIdle fun op hToken => enough_of_run_cons hKept hToken
      rw [State.advance, State.advance, ← hSame]
      cases hStep : st.step ⟨.postfixed, false⟩ token (rest.head?.or left.head?) with
      | error fault => rfl
      | ok next =>
          rw [← List.head?_append] at hStep
          rw [run_of_step hStep] at hKept
          exact ih ((step_course hStep).idle rfl hIdle) hKept

/-- Nothing is lost when mistakes are repaired in a text that strict reading accepts. -/
theorem lost_of_strict_read {stack : List Formula} (hStrict : s.strict = true)
    (hRead : (read s tokens).result = .ok stack) :
    (read s.lenient tokens).notices.filterMap Notice.lost? = [] := by
  simp [read_lenient_of_strict_read hStrict hRead, Notice.lost?]

section
variable (hWaits : s.form.allowsWaiting = true) (hLenient : s.strict = false)
  (hKept : (read ⟨.postfixed, false⟩ tokens).notices.filterMap Notice.lost? = [])
include hWaits hLenient hKept

/-- Whatever part of the text has been read, the two readers are in the same state. -/
theorem advance_of_kept {passed left : List Token} (hTokens : tokens = passed ++ left) :
    State.initial.advance ⟨.postfixed, false⟩ left.head? passed =
      State.initial.advance s left.head? passed := by
  subst hTokens
  exact advance_of_idle hWaits hLenient State.idle_initial hKept

theorem idle_of_reaches (hReaches : s.Reaches tokens st) : st.Idle := by
  obtain ⟨passed, left, hOrder, hAdvance⟩ := hReaches
  rw [Settings.order_of_forward (Settings.isBackward_of_allowsWaiting hWaits)] at hOrder
  rw [← advance_of_kept hWaits hLenient hKept hOrder] at hAdvance
  exact (advance_course hAdvance).idle rfl State.idle_initial

theorem result_read_of_kept :
    (read s tokens).result = (read ⟨.postfixed, false⟩ tokens).result := by
  have hSame := advance_of_kept hWaits hLenient hKept (List.append_nil tokens).symm
  rw [read, read, result_run, result_run,
    Settings.order_of_forward (Settings.isBackward_of_allowsWaiting hWaits),
    Settings.order_of_forward rfl]
  rw [List.head?_nil] at hSame
  rw [← hSame]
  cases hLast : State.initial.advance ⟨.postfixed, false⟩ none tokens with
  | error fault => rfl
  | ok last =>
      have hIdle := (advance_course hLast).idle rfl State.idle_initial
      rw [Result.ok_bind, Result.ok_bind, State.finish_of_idle hLenient hIdle,
        State.finish_of_idle rfl hIdle]

end

/-- Where operations may wait, text with operations behind their operands is read to the same
formulas as where they cannot, if none of them lacks operands there, and none ever waits.
Brackets without partners, unknown pieces and operands left over change nothing of this. What
strict reading accepts as such a text is a case in point. -/
theorem read_pieces_immediate {form : Notation} (hWaits : form.allowsWaiting = true)
    (pieces : List String) :
    ((read ⟨.postfixed, false⟩ (pieces.map Token.ofText)).notices.filterMap Notice.lost? = [] →
      (read ⟨form, false⟩ (pieces.map Token.ofText)).result =
          (read ⟨.postfixed, false⟩ (pieces.map Token.ofText)).result ∧
        ∀ st, Settings.Reaches ⟨form, false⟩ (pieces.map Token.ofText) st →
          ∀ g ∈ st.group :: st.outer, g.waiting = []) ∧
      ∀ stack, (read ⟨.postfixed, true⟩ (pieces.map Token.ofText)).result = .ok stack →
        (read ⟨.postfixed, false⟩ (pieces.map Token.ofText)).notices.filterMap
            Notice.lost? = [] ∧
          (read ⟨form, false⟩ (pieces.map Token.ofText)).result = .ok stack := by
  constructor
  · intro hKept
    exact ⟨result_read_of_kept hWaits rfl hKept,
      fun st hReaches => idle_of_reaches hWaits rfl hKept hReaches⟩
  · intro stack hRead
    have hKept := lost_of_strict_read rfl hRead
    exact ⟨hKept, (result_read_of_kept hWaits rfl hKept).trans (result_read_lenient hRead)⟩

/-- A text with two brackets too many, an unknown piece and two operands left over, and one
that strict reading accepts. -/
theorem read_pieces_immediate_hypot :
    let torn := [")", "(", "1", "2", "+", "w", "x", "hypot", "(", "y", "z"]
    let sum : Formula := .operation .add [.constant (.integer 1), .constant (.integer 2)]
    let left : List Formula :=
      [.coordinate .z, .coordinate .y, .operation .hypot [sum, .coordinate .x]]
    let sound := ["(", "1", "2", "+", ")"]
    (Notation.infixed.allowsWaiting = true ∧
        (read ⟨.postfixed, false⟩ (torn.map Token.ofText)).notices.filterMap Notice.lost? = [] ∧
        (read ⟨.postfixed, true⟩ (sound.map Token.ofText)).result = .ok [sum]) ∧
      (read ⟨.infixed, false⟩ (torn.map Token.ofText)).result = .ok left ∧
      (∀ st, Settings.Reaches ⟨.infixed, false⟩ (torn.map Token.ofText) st →
        ∀ g ∈ st.group :: st.outer, g.waiting = []) ∧
      (read ⟨.infixed, false⟩ (sound.map Token.ofText)).result = .ok [sum] := by
  intro torn sum left sound
  have hKept :
      (read ⟨.postfixed, false⟩ (torn.map Token.ofText)).notices.filterMap Notice.lost? = [] := by
    decide
  have hTorn : (read ⟨.postfixed, false⟩ (torn.map Token.ofText)).result = .ok left := by
    decide
  have hSound : (read ⟨.postfixed, true⟩ (sound.map Token.ofText)).result = .ok [sum] := by
    decide
  have hWaits : Notation.infixed.allowsWaiting = true := rfl
  obtain ⟨hSame, hIdle⟩ := (read_pieces_immediate hWaits torn).1 hKept
  exact ⟨⟨hWaits, hKept, hSound⟩, hSame.trans hTorn, hIdle,
    ((read_pieces_immediate hWaits sound).2 _ hSound).2⟩

end Formulas.Reading

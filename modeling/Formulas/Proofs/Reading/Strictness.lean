import Formulas.Proofs.Reading.Steps

/-! Strict reading only refuses. A text that it accepts is read to the same formula when
mistakes are repaired, because none of the repairs is ever made. -/
namespace Formulas.Reading

/-- The same notation, with mistakes repaired instead of refused. -/
def Settings.lenient (s : Settings) : Settings :=
  { s with strict := false }

variable {s : Settings} {st next : State}

theorem applyTop_lenient (s : Settings) (op : Operation) (count : Nat) (stack : List Formula) :
    applyTop s.lenient op count stack = applyTop s op count stack := rfl

theorem settle_lenient (s : Settings) (stack : List Formula) (waiting : List Waiting) :
    settle s.lenient stack waiting = settle s stack waiting := by
  induction waiting generalizing stack with
  | nil => rfl
  | cons w rest ih =>
      simp only [settle, applyTop_lenient, ih]

/-- No operation is dropped where strict reading would have refused to drop it. -/
theorem flush_lenient {stack : List Formula} {notices : List Notice} {waiting : List Waiting}
    {left : List Formula × List Notice} (hFlush : flush s stack notices waiting = .ok left) :
    flush s.lenient stack notices waiting = .ok left := by
  induction waiting generalizing stack notices with
  | nil => exact hFlush
  | cons w rest ih =>
      simp only [flush] at hFlush ⊢
      cases hTake : w.op.arity.take? (stack.length - w.base) with
      | some count =>
          rw [hTake] at hFlush
          exact ih hFlush
      | none =>
          rw [hTake] at hFlush
          exact ih (Result.guard_eq_ok.mp hFlush).2

namespace State

theorem settleGroup_lenient (s : Settings) (st : State) :
    st.settleGroup s.lenient = st.settleGroup s := by
  simp only [settleGroup, settle_lenient]

theorem push_lenient (s : Settings) (f : Formula) (st : State) :
    st.push s.lenient f = st.push s f :=
  settleGroup_lenient s _

theorem meetBracketed_lenient {op : Operation} {next? : Option Token}
    (hMeet : st.meetBracketed s op next? = .ok next) :
    st.meetBracketed s.lenient op next? = .ok next := by
  obtain ⟨-, hMeet⟩ := Result.guard_eq_ok.mp hMeet
  refine Result.guard_eq_ok.mpr ⟨by simp [Settings.lenient], ?_⟩
  cases hTake : op.arity.take? st.available with
  | some count =>
      rw [hTake] at hMeet
      exact hMeet
  | none =>
      rw [hTake] at hMeet
      exact (Result.guard_eq_ok.mp hMeet).2

theorem closeBracketed_lenient {next? : Option Token}
    (hClose : st.closeBracketed s next? = .ok next) :
    st.closeBracketed s.lenient next? = .ok next := by
  obtain ⟨-, hClose⟩ := Result.guard_eq_ok.mp hClose
  obtain ⟨-, hClose⟩ := Result.guard_eq_ok.mp hClose
  refine Result.guard_eq_ok.mpr ⟨by simp [Settings.lenient], ?_⟩
  refine Result.guard_eq_ok.mpr ⟨by simp [Settings.lenient], ?_⟩
  cases hOuter : st.outer with
  | cons parent outer =>
      rw [hOuter] at hClose
      exact hClose
  | nil =>
      rw [hOuter] at hClose
      exact (Result.guard_eq_ok.mp hClose).2

theorem closeWaiting_lenient (hClose : st.closeWaiting s = .ok next) :
    st.closeWaiting s.lenient = .ok next := by
  simp only [closeWaiting] at hClose ⊢
  cases hOuter : st.outer with
  | nil =>
      rw [hOuter] at hClose
      exact (Result.guard_eq_ok.mp hClose).2
  | cons parent outer =>
      rw [hOuter] at hClose
      obtain ⟨⟨stack, notices⟩, hFlush, hClose⟩ := Result.bind_eq_ok.mp hClose
      refine Result.bind_eq_ok.mpr ⟨_, flush_lenient hFlush, ?_⟩
      refine Result.guard_eq_ok.mpr ⟨by simp [Settings.lenient], ?_⟩
      rw [settleGroup_lenient]
      exact (Result.guard_eq_ok.mp hClose).2

theorem meetBracket_lenient {bracket : Token} {next? : Option Token}
    (hMeet : st.meetBracket s bracket next? = .ok next) :
    st.meetBracket s.lenient bracket next? = .ok next := by
  unfold meetBracket at hMeet ⊢
  by_cases hOpener : bracket = s.opener
  · rw [if_pos hOpener] at hMeet
    exact (if_pos hOpener).trans hMeet
  · rw [if_neg hOpener] at hMeet
    refine (if_neg hOpener).trans ?_
    by_cases hWaiting : s.form.allowsWaiting = true
    · rw [if_pos hWaiting] at hMeet
      exact (if_pos hWaiting).trans (closeWaiting_lenient hMeet)
    · rw [if_neg hWaiting] at hMeet
      exact (if_neg hWaiting).trans (closeBracketed_lenient hMeet)

/-- A step that is not refused is the same step when mistakes are repaired. -/
theorem step_lenient {token : Token} {next? : Option Token}
    (hStep : st.step s token next? = .ok next) : st.step s.lenient token next? = .ok next := by
  cases token with
  | opener => exact Result.mapError_eq_ok.mpr (meetBracket_lenient (Result.mapError_eq_ok.mp hStep))
  | closer => exact Result.mapError_eq_ok.mpr (meetBracket_lenient (Result.mapError_eq_ok.mp hStep))
  | operation op =>
      simp only [step] at hStep ⊢
      by_cases hWaiting : s.form.allowsWaiting = true
      · rw [if_pos hWaiting] at hStep
        exact (if_pos hWaiting).trans hStep
      · rw [if_neg hWaiting] at hStep
        refine (if_neg hWaiting).trans ?_
        exact Result.mapError_eq_ok.mpr (meetBracketed_lenient (Result.mapError_eq_ok.mp hStep))
  | coordinate which => exact (congrArg Except.ok (push_lenient s _ st)).trans hStep
  | number value => exact (congrArg Except.ok (push_lenient s _ st)).trans hStep
  | oversized => exact hStep
  | unknown text => exact (Result.guard_eq_ok.mp hStep).2

end State

theorem finishGroups_lenient {stack : List Formula} {notices : List Notice} {group : Group}
    {outer : List Group} {left : List Formula × List Notice}
    (hFinish : finishGroups s stack notices group outer = .ok left) :
    finishGroups s.lenient stack notices group outer = .ok left := by
  induction outer generalizing stack notices group with
  | nil => exact flush_lenient hFinish
  | cons parent outer ih =>
      obtain ⟨⟨stack, notices⟩, hFlush, hLater⟩ := Result.bind_eq_ok.mp hFinish
      refine Result.bind_eq_ok.mpr ⟨_, flush_lenient hFlush, ?_⟩
      simp only [settle_lenient]
      exact ih hLater

theorem State.finish_lenient {left : List Formula × List Notice}
    (hFinish : st.finish s = .ok left) : st.finish s.lenient = .ok left := by
  obtain ⟨-, hFinish⟩ := Result.guard_eq_ok.mp hFinish
  obtain ⟨⟨stack, notices⟩, hGroups, hEnd⟩ := Result.bind_eq_ok.mp hFinish
  refine Result.guard_eq_ok.mpr ⟨by simp [Settings.lenient], ?_⟩
  refine Result.bind_eq_ok.mpr ⟨_, finishGroups_lenient hGroups, ?_⟩
  exact Result.guard_eq_ok.mpr ⟨by simp [Settings.lenient], (Result.guard_eq_ok.mp hEnd).2⟩

theorem run_lenient {count : Nat} {tokens : List Token} {stack : List Formula}
    (hRun : (run s count st tokens).result = .ok stack) :
    (run s.lenient count st tokens).result = .ok stack := by
  induction tokens generalizing st with
  | nil =>
      obtain ⟨notices, hFinish⟩ := result_run_nil.mp hRun
      exact result_run_nil.mpr ⟨notices, State.finish_lenient hFinish⟩
  | cons token rest ih =>
      obtain ⟨next, hStep, hLater⟩ := result_run_cons.mp hRun
      exact result_run_cons.mpr ⟨next, State.step_lenient hStep, ih hLater⟩

/-- What strict reading accepts comes to the same formulas when mistakes are repaired. -/
theorem result_read_lenient {tokens : List Token} {stack : List Formula}
    (hRead : (read s tokens).result = .ok stack) :
    (read s.lenient tokens).result = .ok stack :=
  run_lenient hRead

end Formulas.Reading

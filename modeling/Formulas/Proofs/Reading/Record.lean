import Formulas.Proofs.Reading.Steps

/-! The record of a reader. Notices are only added to those that are there, and nothing that is
read depends on them. -/
namespace Formulas.Reading

/-- The state with these notices before all that it has. -/
def State.since (before : List Notice) (st : State) : State :=
  { st with notices := st.notices ++ before }

variable {s : Settings} {next? : Option Token}

theorem flush_since (stack : List Formula) (notices before : List Notice)
    (waiting : List Waiting) :
    flush s stack (notices ++ before) waiting =
      (flush s stack notices waiting).map (Prod.map id fun said => said ++ before) := by
  induction waiting generalizing stack notices with
  | nil => rfl
  | cons w rest ih =>
      simp only [flush]
      cases w.op.arity.take? (stack.length - w.base) with
      | some count => exact ih _ _
      | none =>
          cases hStrict : s.strict with
          | true => rfl
          | false => simpa using ih stack (.dropped w.op :: notices)

theorem finishGroups_since (stack : List Formula) (notices before : List Notice) (group : Group)
    (outer : List Group) :
    finishGroups s stack (notices ++ before) group outer =
      (finishGroups s stack notices group outer).map (Prod.map id fun said => said ++ before) := by
  induction outer generalizing stack notices group with
  | nil => exact flush_since stack notices before group.waiting
  | cons parent outer ih =>
      simp only [finishGroups, flush_since]
      cases flush s stack notices group.waiting with
      | error what => rfl
      | ok left => exact ih _ _ _

namespace State

variable (before : List Notice) (st : State)

theorem meetWaiting_since (op : Operation) :
    (st.since before).meetWaiting s op = (st.meetWaiting s op).since before := by
  simp only [meetWaiting, since, available]
  split <;> rfl

theorem meetBracketed_since (op : Operation) :
    (st.since before).meetBracketed s op next? =
      (st.meetBracketed s op next?).map (since before) := by
  simp only [meetBracketed, since, available]
  cases op.arity.take? (st.stack.length - st.group.start) with
  | some count => split_ifs <;> rfl
  | none => split_ifs <;> rfl

theorem topIsOperation_since : (st.since before).topIsOperation = st.topIsOperation := by
  simp only [topIsOperation, since]

theorem closeWaiting_since :
    (st.since before).closeWaiting s = (st.closeWaiting s).map (since before) := by
  obtain ⟨stack, group, outer, notices⟩ := st
  simp only [closeWaiting, since, flush_since]
  cases outer with
  | nil => cases hStrict : s.strict <;> simp [since]
  | cons parent outer =>
      cases flush s stack notices group.waiting with
      | error what => rfl
      | ok left =>
          let ended : State := ⟨left.1, group, parent :: outer, left.2⟩
          have hSame : (ended.since before).available = 1 ∧
              (ended.since before).topIsOperation = true ↔
                ended.available = 1 ∧ ended.topIsOperation = true := by
            rw [topIsOperation_since]
            rfl
          simp only [Result.map_ok, Result.ok_bind, Prod.map, apply_ite (Except.map _)]
          exact if_congr (and_congr_right fun _ => not_congr hSame) rfl rfl

theorem closeBracketed_since :
    (st.since before).closeBracketed s next? =
      (st.closeBracketed s next?).map (since before) := by
  simp only [closeBracketed, topIsOperation_since, apply_ite (Except.map (since before))]
  obtain ⟨stack, group, outer, notices⟩ := st
  cases outer with
  | nil => simp only [since, apply_ite (Except.map _), Result.map_error, Result.map_ok]
  | cons parent outer => rfl

theorem step_since (token : Token) :
    (st.since before).step s token next? = (st.step s token next?).map (since before) := by
  by_cases hOpener : token = s.opener
  · subst hOpener
    rw [step_opens, step_opens]
    rfl
  by_cases hCloser : token = s.closer
  · subst hCloser
    rw [step_closes, step_closes, closeWaiting_since, closeBracketed_since, ← Result.mapError_map]
    split_ifs <;> rfl
  obtain ⟨hNoOpener, hNoCloser⟩ := Settings.ne_brackets hOpener hCloser
  cases token with
  | opener => exact absurd rfl hNoOpener
  | closer => exact absurd rfl hNoCloser
  | coordinate which => rfl
  | number value => rfl
  | oversized => rfl
  | unknown text =>
      simp only [step]
      split_ifs <;> rfl
  | operation op =>
      simp only [step, meetWaiting_since, meetBracketed_since, Result.mapError_map]
      split_ifs <;> rfl

theorem finish_since :
    (st.since before).finish s =
      (st.finish s).map (Prod.map id fun said => said ++ before) := by
  simp only [finish, since, finishGroups_since]
  cases finishGroups s st.stack st.notices st.group st.outer with
  | error what => split_ifs <;> rfl
  | ok left =>
      simp only [Result.map_ok, Result.ok_bind, Prod.map, id]
      split_ifs <;> rfl

end State

theorem stop_since (before : List Notice) (st : State) (fault : Fault) :
    stop s (st.since before) fault =
      ⟨(stop s st fault).result, before.reverse ++ (stop s st fault).notices⟩ := by
  cases fault <;> simp [stop, State.since]

/-- Whatever has been noted before is reported first, and changes nothing of what is read. -/
theorem run_since (count : Nat) (before : List Notice) (st : State) (tokens : List Token) :
    run s count (st.since before) tokens =
      ⟨(run s count st tokens).result, before.reverse ++ (run s count st tokens).notices⟩ := by
  induction tokens generalizing st with
  | nil =>
      simp only [run, State.finish_since]
      cases st.finish s with
      | error what => exact stop_since before st (.mistake what)
      | ok left => simp
  | cons token rest ih =>
      simp only [run, State.step_since]
      cases st.step s token rest.head? with
      | error fault => exact stop_since before st fault
      | ok next => exact ih next

end Formulas.Reading

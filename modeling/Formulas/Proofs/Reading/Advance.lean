import Formulas.Proofs.Reading.Move

/-! Reading part of a text. A text is read by advancing over all its tokens and finishing
then, and the states that a reader reaches are those after some of them. -/
namespace Formulas.Reading

/-- The state after some tokens, if none of them stops the reader. A reader knows the next
token, also behind the last of them. -/
def State.advance (s : Settings) (behind? : Option Token) (st : State) :
    List Token → Except Fault State
  | [] => .ok st
  | token :: rest => do
    let next ← st.step s token (rest.head?.or behind?)
    next.advance s behind? rest

/-- Reading the tokens comes to this state before some of them or behind the last. -/
def Settings.Reaches (s : Settings) (tokens : List Token) (st : State) : Prop :=
  ∃ passed left, s.order tokens = passed ++ left ∧
    State.initial.advance s left.head? passed = .ok st

/-- Whatever comes next, the tokens lead a reader from one state to the other. -/
def Leads (s : Settings) (st : State) (tokens : List Token) (next : State) : Prop :=
  ∀ next?, st.advance s next? tokens = .ok next

variable {s : Settings} {st mid next : State} {behind? : Option Token}
  {tokens more : List Token}

theorem advance_cons_eq_ok {token : Token} {rest : List Token} :
    st.advance s behind? (token :: rest) = .ok next ↔
      ∃ mid, st.step s token (rest.head?.or behind?) = .ok mid ∧
        mid.advance s behind? rest = .ok next :=
  Result.bind_eq_ok

theorem advance_append (st : State) (tokens more : List Token) :
    st.advance s behind? (tokens ++ more) =
      st.advance s (more.head?.or behind?) tokens >>= fun mid => mid.advance s behind? more := by
  induction tokens generalizing st with
  | nil => rfl
  | cons token rest ih =>
      have hNext : (rest ++ more).head?.or behind? = rest.head?.or (more.head?.or behind?) := by
        rw [List.head?_append, Option.or_assoc]
      simp only [List.cons_append, State.advance, hNext]
      cases st.step s token (rest.head?.or (more.head?.or behind?)) with
      | error fault => rfl
      | ok mid => exact ih mid

/-- Advancing fails at a token. -/
theorem advance_eq_error {fault : Fault} (hAdvance : st.advance s behind? tokens = .error fault) :
    ∃ passed token left mid, tokens = passed ++ token :: left ∧
      st.advance s (some token) passed = .ok mid ∧
      mid.step s token (left.head?.or behind?) = .error fault := by
  induction tokens generalizing st with
  | nil => cases hAdvance
  | cons token rest ih =>
      rcases Result.bind_eq_error.mp hAdvance with hStep | ⟨next, hStep, hLater⟩
      · exact ⟨[], token, rest, st, rfl, rfl, hStep⟩
      · obtain ⟨passed, last, left, mid, rfl, hPassed, hFails⟩ := ih hLater
        refine ⟨token :: passed, last, left, mid, rfl, advance_cons_eq_ok.mpr ⟨next, ?_, hPassed⟩,
          hFails⟩
        rwa [List.head?_append, Option.or_assoc] at hStep

namespace Leads

theorem refl (st : State) : Leads s st [] st :=
  fun _ => rfl

theorem single {token : Token} (hStep : ∀ next?, st.step s token next? = .ok next) :
    Leads s st [token] next := by
  intro next?
  rw [State.advance, hStep, Result.ok_bind]
  rfl

theorem trans (first : Leads s st tokens mid) (second : Leads s mid more next) :
    Leads s st (tokens ++ more) next := by
  intro next?
  rw [advance_append, first, Result.ok_bind, second]

theorem cons {token : Token} (hStep : ∀ next?, st.step s token next? = .ok mid)
    (second : Leads s mid more next) : Leads s st (token :: more) next :=
  (single hStep).trans second

end Leads

/-- Advancing over tokens is a course of moves that read them. -/
theorem advance_course (hAdvance : st.advance s behind? tokens = .ok next) :
    Course s st tokens next := by
  induction tokens generalizing st with
  | nil =>
      obtain rfl := Except.ok.inj hAdvance
      exact .refl st
  | cons token rest ih =>
      obtain ⟨mid, hStep, hLater⟩ := advance_cons_eq_ok.mp hAdvance
      exact (step_course hStep).trans (ih hLater)

/-- A run comes to what advancing over all its tokens and finishing then come to. -/
theorem result_run (count : Nat) : (run s count st tokens).result =
    (st.advance s none tokens >>= fun last => (last.finish s).mapError .mistake).map
      Prod.fst := by
  induction tokens generalizing st with
  | nil => cases hFinish : st.finish s <;> simp [run, State.advance, hFinish, stop]
  | cons token rest ih =>
      rw [State.advance, Option.or_none]
      cases hStep : st.step s token rest.head? with
      | error fault => cases fault <;> simp [run, hStep, stop]
      | ok next => simpa [run, hStep] using ih

/-- A run succeeds by advancing over all its tokens and finishing then. -/
theorem run_eq_iff {count : Nat} {stack : List Formula} {notices : List Notice} :
    run s count st tokens = ⟨.ok stack, notices⟩ ↔
      ∃ last said, st.advance s none tokens = .ok last ∧ last.finish s = .ok (stack, said) ∧
        notices = said.reverse ++ [.finished count s] := by
  induction tokens generalizing st with
  | nil =>
      cases hFinish : st.finish s with
      | error what => simp [run, hFinish, stop, State.advance]
      | ok left => simp [run, hFinish, State.advance, Prod.ext_iff, eq_comm]
  | cons token rest ih =>
      simp only [advance_cons_eq_ok, Option.or_none]
      cases hStep : st.step s token rest.head? with
      | error fault => cases fault <;> simp [run, hStep, stop]
      | ok next => simp [run, hStep, ih]

theorem advance_of_read {stack : List Formula} (hRead : (read s tokens).result = .ok stack) :
    ∃ last said, State.initial.advance s none (s.order tokens) = .ok last ∧
      last.finish s = .ok (stack, said) ∧
      (read s tokens).notices = said.reverse ++ [.finished tokens.length s] := by
  apply run_eq_iff.mp
  rw [← hRead]
  rfl

/-- Reading that succeeds is a course of moves over all tokens, behind which no operation
waits and no group is open. -/
theorem read_course {stack : List Formula} (hRead : (read s tokens).result = .ok stack) :
    ∃ start said, Course s .initial (s.order tokens) ⟨stack, ⟨start, []⟩, [], said⟩ ∧
      (read s tokens).notices = said.reverse ++ [.finished tokens.length s] := by
  obtain ⟨last, said, hAdvance, hFinish, hNotices⟩ := advance_of_read hRead
  obtain ⟨start, hCourse⟩ := finish_course hFinish
  refine ⟨start, said, ?_, hNotices⟩
  simpa using (advance_course hAdvance).trans hCourse

end Formulas.Reading

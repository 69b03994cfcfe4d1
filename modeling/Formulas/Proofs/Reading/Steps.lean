import Formulas.Reading.Basic
import Formulas.Proofs.Result

/-! What single steps of reading do, and when runs succeed. -/
namespace Formulas

/-- The formula that a single token stands for. -/
def Token.leaf? : Token → Option Formula
  | .coordinate which => some (.coordinate which)
  | .number value => some (.constant value)
  | _ => none

/-- A leaf is a coordinate or a constant. -/
theorem Token.leaf?_eq_some {token : Token} {f : Formula} (hLeaf : token.leaf? = some f) :
    (∃ which, token = .coordinate which ∧ f = .coordinate which) ∨
      ∃ value, token = .number value ∧ f = .constant value := by
  cases token <;> simp_all [Token.leaf?, eq_comm]

namespace Reading

namespace Settings

theorem arrange_perm (s : Settings) (taken : List Formula) : (s.arrange taken).Perm taken := by
  unfold arrange
  split_ifs
  · exact .refl _
  · exact taken.reverse_perm

@[simp] theorem length_arrange (s : Settings) (taken : List Formula) :
    (s.arrange taken).length = taken.length :=
  (s.arrange_perm taken).length_eq

@[simp] theorem mem_arrange {s : Settings} {taken : List Formula} {f : Formula} :
    f ∈ s.arrange taken ↔ f ∈ taken :=
  (s.arrange_perm taken).mem_iff

theorem order_perm (s : Settings) (tokens : List Token) : (s.order tokens).Perm tokens := by
  unfold order
  split_ifs
  · exact tokens.reverse_perm
  · exact .refl _

@[simp] theorem length_order (s : Settings) (tokens : List Token) :
    (s.order tokens).length = tokens.length :=
  (s.order_perm tokens).length_eq

@[simp] theorem order_order (s : Settings) (tokens : List Token) :
    s.order (s.order tokens) = tokens := by
  unfold order
  split_ifs <;> simp

theorem order_of_forward {s : Settings} (hForward : s.isBackward = false) (tokens : List Token) :
    s.order tokens = tokens := by
  simp [order, hForward]

/-- Operations wait only where text is read from front to back. -/
theorem isBackward_of_allowsWaiting {s : Settings} (hForm : s.form.allowsWaiting = true) :
    s.isBackward = false := by
  obtain ⟨form, strict⟩ := s
  cases form <;> simp_all [isBackward, Notation.allowsWaiting]

theorem closer_of_forward {s : Settings} (hForward : s.isBackward = false) :
    s.closer = .closer := by
  simp [closer, hForward]

theorem opener_ne_closer (s : Settings) : s.opener ≠ s.closer := by
  cases hBackward : s.isBackward <;> simp [opener, closer, hBackward]

/-- Of the two brackets one opens groups and the other one closes them. -/
theorem bracket_iff {s : Settings} {token : Token} :
    token = .opener ∨ token = .closer ↔ token = s.opener ∨ token = s.closer := by
  cases hBackward : s.isBackward <;> simp [opener, closer, hBackward, or_comm]

theorem ne_brackets {s : Settings} {token : Token} (hOpener : token ≠ s.opener)
    (hCloser : token ≠ s.closer) : token ≠ .opener ∧ token ≠ .closer :=
  not_or.mp (mt bracket_iff.mp (not_or.mpr ⟨hOpener, hCloser⟩))

end Settings

variable {s : Settings} {count : Nat} {st next : State} {token : Token} {rest : List Token}
  {stack : List Formula}

theorem run_of_step (hStep : st.step s token rest.head? = .ok next) :
    run s count st (token :: rest) = run s count next rest := by
  simp [run, hStep]

/-- A run that is not over succeeds when its first step and the rest of it do. -/
theorem result_run_cons :
    (run s count st (token :: rest)).result = .ok stack ↔
      ∃ next, st.step s token rest.head? = .ok next ∧
        (run s count next rest).result = .ok stack := by
  cases hStep : st.step s token rest.head? with
  | ok next => simp [run, hStep]
  | error fault => cases fault <;> simp [run, hStep, stop]

theorem result_run_nil :
    (run s count st []).result = .ok stack ↔ ∃ notices, st.finish s = .ok (stack, notices) := by
  cases hFinish : st.finish s with
  | ok left => simp [run, hFinish, Prod.ext_iff]
  | error what => simp [run, hFinish, stop]

theorem step_leaf {f : Formula} (hLeaf : token.leaf? = some f) (next? : Option Token) :
    st.step s token next? = .ok (st.push s f) := by
  rcases Token.leaf?_eq_some hLeaf with ⟨which, rfl, rfl⟩ | ⟨value, rfl, rfl⟩ <;> rfl

/-- Without waiting operations a formula is just put on the stack. -/
theorem push_of_waiting_nil (hWaiting : st.group.waiting = []) (f : Formula) :
    st.push s f = { st with stack := f :: st.stack } := by
  obtain ⟨stack, ⟨start, waiting⟩, outer, notices⟩ := st
  cases hWaiting
  rfl

theorem step_bracket (hBracket : token = .opener ∨ token = .closer) (next? : Option Token) :
    st.step s token next? = (st.meetBracket s token next?).mapError .mistake := by
  rcases hBracket with rfl | rfl <;> rfl

/-- In every notation one bracket opens a group. -/
theorem step_opens (next? : Option Token) : st.step s s.opener next? = .ok st.openGroup := by
  rw [step_bracket (Settings.bracket_iff.mpr (.inl rfl)), State.meetBracket, if_pos rfl,
    Result.mapError_ok]

/-- The other bracket ends a group, as the notation has it. -/
theorem step_closes (next? : Option Token) :
    st.step s s.closer next? = (if s.form.allowsWaiting then st.closeWaiting s
      else st.closeBracketed s next?).mapError .mistake := by
  rw [step_bracket (Settings.bracket_iff.mpr (.inr rfl)), State.meetBracket,
    if_neg s.opener_ne_closer.symm]

theorem step_opener (hForward : s.isBackward = false) (next? : Option Token) :
    st.step s .opener next? = .ok st.openGroup := by
  rw [← Settings.opener_of_forward hForward, step_opens]

/-- The end of a text in which nothing waits and all groups are closed. -/
theorem finish_of_closed (hOuter : st.outer = []) (hWaiting : st.group.waiting = []) :
    st.finish s =
      if s.strict = true ∧ st.stack.length ≠ 1 then
        .error (.fewOperations (.itemsLeft st.stack.length))
      else .ok (st.stack, st.notices) := by
  simp [State.finish, hOuter, finishGroups, hWaiting, flush]

/-- Without open groups, the end of a text is the end of its outermost group. -/
theorem finish_eq_ok (hOuter : st.outer = []) {left : List Formula × List Notice} :
    st.finish s = .ok left ↔ flush s st.stack st.notices st.group.waiting = .ok left ∧
      (s.strict = true → left.1.length = 1) := by
  simp only [State.finish, hOuter, finishGroups, ne_eq, not_true_eq_false, and_false, if_false]
  rw [Result.bind_eq_ok]
  constructor
  · rintro ⟨flushed, hFlush, hEnd⟩
    obtain ⟨hOne, hEnd⟩ := Result.guard_eq_ok.mp hEnd
    obtain rfl := Except.ok.inj hEnd
    exact ⟨hFlush, fun hStrict => by simpa [hStrict] using hOne⟩
  · rintro ⟨hFlush, hOne⟩
    exact ⟨left, hFlush, Result.guard_eq_ok.mpr ⟨fun ⟨hStrict, hMany⟩ => hMany (hOne hStrict), rfl⟩⟩

theorem finish_of_open (hStrict : s.strict = true) (hOuter : st.outer ≠ []) :
    st.finish s = .error .unbalanced := by
  simp [State.finish, hStrict, hOuter]

/-! Strict reading of operations after their operands. -/

/-- An operation must be the last token of its group and find enough operands there. -/
theorem strict_step_operation {op : Operation} {next? : Option Token} :
    st.step ⟨.postfixed, true⟩ (.operation op) next? = .ok next ↔
      next? = some .closer ∧ ∃ taken, op.arity.take? st.available = some taken ∧
        next = { st with stack := applyTop ⟨.postfixed, true⟩ op taken st.stack } := by
  by_cases hNext : next? = some .closer
  · cases hTake : op.arity.take? st.available with
    | none => simp [State.step, Notation.allowsWaiting, State.meetBracketed, hNext, hTake]
    | some taken =>
        simp [State.step, Notation.allowsWaiting, State.meetBracketed, hNext, hTake, eq_comm]
  · simp [State.step, Notation.allowsWaiting, State.meetBracketed, hNext]

/-- A closing bracket wants an operation on top of the stack, an open group, and no other
closing bracket behind it. -/
theorem strict_step_closer {next? : Option Token} :
    st.step ⟨.postfixed, true⟩ .closer next? = .ok next ↔
      st.topIsOperation = true ∧ next? ≠ some .closer ∧ ∃ parent outer,
        st.outer = parent :: outer ∧ next = { st with group := parent, outer := outer } := by
  have hMeet : st.step ⟨.postfixed, true⟩ .closer next? =
      (st.closeBracketed ⟨.postfixed, true⟩ next?).mapError .mistake := rfl
  rw [hMeet]
  by_cases hTop : st.topIsOperation = true
  · by_cases hNext : next? = some .closer
    · simp [State.closeBracketed, hTop, hNext]
    · cases hOuter : st.outer with
      | nil => simp [State.closeBracketed, hTop, hNext, hOuter]
      | cons parent outer => simp [State.closeBracketed, hTop, hNext, hOuter, eq_comm]
  · simp [State.closeBracketed, hTop]

end Reading

end Formulas

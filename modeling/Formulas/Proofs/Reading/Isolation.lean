import Formulas.Proofs.Operation
import Formulas.Proofs.Reading.Balance

/-! Brackets isolate what is between them. Inside a group a reader does to the top of its
stack what a reader of that text alone does to a stack of its own; all that was there before
the opening bracket lies below and is not touched. -/
namespace Formulas.Reading

/-- The operation waits at a height that is greater by so much. -/
def Waiting.raise (height : Nat) (w : Waiting) : Waiting :=
  ⟨w.op, w.base + height⟩

def Group.raise (height : Nat) (g : Group) : Group :=
  ⟨g.start + height, g.waiting.map (Waiting.raise height)⟩

namespace State

/-- The state of a reader in a group that was opened on a base, when a reader of the text of
that group alone would have this state. -/
def above (base st : State) : State where
  stack := st.stack ++ base.stack
  group := st.group.raise base.stack.length
  outer := st.outer.map (Group.raise base.stack.length) ++ base.group :: base.outer
  notices := st.notices ++ base.notices

/-- Takes over what a bracketed text came to, above what is there, and applies then the
operations that have waited for it. -/
def receive (s : Settings) (formulas : List Formula) (notices : List Notice) (st : State) :
    State :=
  let received := { st with stack := formulas ++ st.stack, notices := notices ++ st.notices }
  if s.form.allowsWaiting then received.settleGroup s else received

end State

variable {s : Settings} {next : State} {token : Token} {next? behind? : Option Token}
  {tokens : List Token}

/-- An operation that takes its operands from the top does not see what lies below. -/
theorem applyTop_append {op : Operation} {count : Nat} {stack : List Formula}
    (hCount : count ≤ stack.length) (below : List Formula) :
    applyTop s op count (stack ++ below) = applyTop s op count stack ++ below := by
  rw [applyTop, List.take_append_of_le_length hCount, List.drop_append_of_le_length hCount]
  rfl

/-- The operands above a raised height are as many as before. -/
theorem length_append_sub (stack below : List Formula) (height : Nat) :
    (stack ++ below).length - (height + below.length) = stack.length - height := by
  rw [List.length_append, Nat.add_sub_add_right]

theorem settle_append (stack below : List Formula) (waiting : List Waiting) :
    settle s (stack ++ below) (waiting.map (Waiting.raise below.length)) =
      ((settle s stack waiting).1 ++ below,
        (settle s stack waiting).2.map (Waiting.raise below.length)) := by
  induction waiting generalizing stack with
  | nil => rfl
  | cons w rest ih =>
      simp only [List.map_cons, settle, Waiting.raise, length_append_sub]
      cases w.op.arity with
      | variadic => rfl
      | exactly count =>
          by_cases hEnough : count ≤ stack.length - w.base
          · have hCount : count ≤ stack.length := by omega
            simp only [if_pos hEnough, applyTop_append hCount]
            exact ih _
          · simp only [if_neg hEnough]
            rfl

theorem flush_append (stack below : List Formula) (notices before : List Notice)
    (waiting : List Waiting) :
    flush s (stack ++ below) (notices ++ before) (waiting.map (Waiting.raise below.length)) =
      (flush s stack notices waiting).map
        (Prod.map (fun left => left ++ below) (fun said => said ++ before)) := by
  induction waiting generalizing stack notices with
  | nil => rfl
  | cons w rest ih =>
      simp only [List.map_cons, flush, Waiting.raise, length_append_sub]
      cases hTake : w.op.arity.take? (stack.length - w.base) with
      | some count =>
          have hCount : count ≤ stack.length :=
            Nat.le_trans (Arity.take?_eq_some hTake).2 (Nat.sub_le ..)
          simp only [applyTop_append hCount]
          exact ih _ notices
      | none =>
          cases hStrict : s.strict with
          | true => rfl
          | false => simpa using ih stack (.dropped w.op :: notices)

namespace State

variable (base st : State)

theorem openGroup_eq_above : st.openGroup = st.above .initial := by
  simp [openGroup, above, initial, Group.raise]

theorem openGroup_above : (base.above st).openGroup = base.above st.openGroup := by
  simp [openGroup, above, Group.raise]

theorem note_above (notice : Notice) :
    (base.above st).note notice = base.above (st.note notice) :=
  rfl

theorem available_above : (base.above st).available = st.available :=
  length_append_sub ..

theorem settleGroup_above : (base.above st).settleGroup s = base.above (st.settleGroup s) := by
  simp only [settleGroup, above, Group.raise, settle_append]

theorem push_above (f : Formula) : (base.above st).push s f = base.above (st.push s f) :=
  settleGroup_above base { st with stack := f :: st.stack }

theorem apply_above {op : Operation} {taken : Nat}
    (hTake : op.arity.take? st.available = some taken) :
    { base.above st with stack := applyTop s op taken (base.above st).stack } =
      base.above { st with stack := applyTop s op taken st.stack } := by
  have hCount : taken ≤ st.stack.length :=
    Nat.le_trans (Arity.take?_eq_some hTake).2 (Nat.sub_le ..)
  simp only [above, applyTop_append hCount]

theorem await_above (op : Operation) (height : Nat) :
    (base.above st).await op (height + base.stack.length) = base.above (st.await op height) :=
  rfl

theorem meetWaiting_above (op : Operation) :
    (base.above st).meetWaiting s op = base.above (st.meetWaiting s op) := by
  have hWaiting : (base.above st).group.waiting =
      st.group.waiting.map (Waiting.raise base.stack.length) := rfl
  have hHeight : (base.above st).stack.length = st.stack.length + base.stack.length :=
    List.length_append
  unfold meetWaiting
  rw [available_above, hWaiting, hHeight]
  cases st.group.waiting with
  | cons w rest => exact await_above base st op st.stack.length
  | nil =>
      cases hTake : op.arity.take? st.available with
      | none => exact await_above base st op st.group.start
      | some taken => exact apply_above base st hTake

theorem meetBracketed_above (op : Operation) :
    (base.above st).meetBracketed s op next? =
      (st.meetBracketed s op next?).map base.above := by
  unfold meetBracketed
  rw [available_above]
  cases hTake : op.arity.take? st.available with
  | none => split_ifs <;> rfl
  | some taken =>
      dsimp only
      split_ifs
      · rfl
      · exact congrArg Except.ok (apply_above base st hTake)

/-- The group has come to one formula, which is an operation. -/
theorem one_operation_above :
    (base.above st).available = 1 ∧ (base.above st).topIsOperation = true ↔
      st.available = 1 ∧ st.topIsOperation = true := by
  rw [available_above]
  refine and_congr_right fun hOne => ?_
  cases hStack : st.stack with
  | nil => simp [available, hStack] at hOne
  | cons f rest => simp [topIsOperation, above, hStack]

/-- What the end of a group comes to above a base, whichever group is around it. -/
theorem closeWaiting_above_of {parent : Group} {outer : List Group}
    (hOuter : (base.above st).outer = parent :: outer) :
    (base.above st).closeWaiting s =
      flush s st.stack st.notices st.group.waiting >>= fun left =>
        let ended : State := { st with stack := left.1, notices := left.2 }
        if s.strict = true ∧ ¬ (ended.available = 1 ∧ ended.topIsOperation = true) then
          .error (.fewOperations .unspecified)
        else .ok (settleGroup s
          ⟨left.1 ++ base.stack, parent, outer, left.2 ++ base.notices⟩) := by
  have hFlush : flush s (base.above st).stack (base.above st).notices
      (base.above st).group.waiting = _ :=
    flush_append st.stack base.stack st.notices base.notices st.group.waiting
  rw [closeWaiting, hOuter]
  dsimp only
  rw [hFlush]
  cases flush s st.stack st.notices st.group.waiting with
  | error what => rfl
  | ok left =>
      have hSame := one_operation_above base { st with stack := left.1, notices := left.2 }
      simp only [Result.map_ok, Result.ok_bind, Prod.map]
      exact if_congr (and_congr_right fun _ => not_congr hSame) rfl rfl

theorem closeWaiting_above (hOpen : st.outer ≠ []) :
    (base.above st).closeWaiting s = (st.closeWaiting s).map base.above := by
  obtain ⟨parent, outer, hOuter⟩ := List.exists_cons_of_ne_nil hOpen
  have hAbove : (base.above st).outer = parent.raise base.stack.length ::
      (outer.map (Group.raise base.stack.length) ++ base.group :: base.outer) := by
    simp [above, hOuter]
  rw [closeWaiting_above_of base st hAbove, closeWaiting, hOuter]
  cases flush s st.stack st.notices st.group.waiting with
  | error what => rfl
  | ok left =>
      simp only [Result.ok_bind]
      split_ifs
      · rfl
      · exact congrArg Except.ok (settleGroup_above base ⟨left.1, parent, outer, left.2⟩)

theorem closeBracketed_above (hLenient : s.strict = false) (hOpen : st.outer ≠ []) :
    (base.above st).closeBracketed s next? = (st.closeBracketed s next?).map base.above := by
  obtain ⟨parent, outer, hOuter⟩ := List.exists_cons_of_ne_nil hOpen
  simp [closeBracketed, hLenient, hOuter, above]

end State

variable {base st : State} {behind? : Option Token} {tokens : List Token}

/-- Where mistakes are repaired or operations may wait, a reader does not look ahead. -/
theorem step_next? (hSettings : s.strict = false ∨ s.form.allowsWaiting = true)
    (next? behind? : Option Token) : st.step s token next? = st.step s token behind? := by
  rcases hSettings with hLenient | hWaits
  · cases token <;>
      simp [State.step, State.meetBracket, State.meetBracketed, State.closeBracketed, hLenient]
  · cases token <;> simp [State.step, State.meetBracket, hWaits]

/-- A step inside a group, unless it closes it, is a step of a reader of that text alone. -/
theorem step_above (hSettings : s.strict = false ∨ s.form.allowsWaiting = true)
    (hInside : token = s.closer → st.outer ≠ []) :
    (base.above st).step s token next? = (st.step s token next?).map base.above := by
  by_cases hOpener : token = s.opener
  · subst hOpener
    rw [step_opens, step_opens, State.openGroup_above]
    rfl
  by_cases hCloser : token = s.closer
  -- The bracket closes a group that was opened above the base, so the base is not reached.
  · subst hCloser
    rw [step_closes, step_closes, ← Result.mapError_map]
    congr 1
    split_ifs with hWaits
    · exact State.closeWaiting_above base st (hInside rfl)
    · exact State.closeBracketed_above base st (hSettings.resolve_right hWaits) (hInside rfl)
  obtain ⟨hNoOpener, hNoCloser⟩ := Settings.ne_brackets hOpener hCloser
  cases token with
  | opener => exact absurd rfl hNoOpener
  | closer => exact absurd rfl hNoCloser
  | coordinate which => exact congrArg Except.ok (State.push_above base st _)
  | number value => exact congrArg Except.ok (State.push_above base st _)
  | operation op =>
      simp only [State.step]
      split_ifs
      · exact congrArg Except.ok (State.meetWaiting_above base st op)
      · rw [State.meetBracketed_above, Result.mapError_map]
  | oversized => rfl
  | unknown text =>
      simp only [State.step]
      split_ifs
      · rfl
      · exact congrArg Except.ok (State.note_above base st _)

/-- Reading on inside a group is reading that text alone. -/
theorem advance_above (hSettings : s.strict = false ∨ s.form.allowsWaiting = true) {depth : Nat}
    (hDepth : tokens.foldlM s.depthAfter? st.outer.length = some depth) :
    (base.above st).advance s next? tokens = (st.advance s behind? tokens).map base.above := by
  induction tokens generalizing st with
  | nil => rfl
  | cons token rest ih =>
      obtain ⟨after, hAfter, hRest⟩ := Option.bind_eq_some_iff.mp hDepth
      have hInside : token = s.closer → st.outer ≠ [] := by
        rintro rfl hOuter
        rw [hOuter, List.length_nil, Settings.depthAfter?_closer_zero] at hAfter
        exact absurd hAfter (by simp)
      simp only [State.advance, step_above hSettings hInside,
        step_next? hSettings (rest.head?.or next?) (rest.head?.or behind?)]
      cases hStep : st.step s token (rest.head?.or behind?) with
      | error fault => rfl
      | ok mid =>
          rw [← outer_length_of_depthAfter? hStep hAfter] at hRest
          exact ih hRest

theorem one_operation_iff (st : State) (hStart : st.group.start = 0) :
    st.available = 1 ∧ st.topIsOperation = true ↔
      ∃ f, st.stack = [f] ∧ f.isOperation = true := by
  rcases hStack : st.stack with _ | ⟨f, _ | ⟨g, rest⟩⟩ <;>
    simp [State.available, State.topIsOperation, hStack, hStart]

/-- Where operations may wait, the end of a group is the end of its text alone, if strict
reading finds one operation there. -/
theorem closeWaiting_above_eq_ok (hForm : s.form.allowsWaiting = true) (hOuter : st.outer = [])
    (hStart : st.group.start = 0) :
    (base.above st).closeWaiting s = .ok next ↔
      ∃ stack said, st.finish s = .ok (stack, said) ∧
        (s.strict = true → ∃ f, stack = [f] ∧ f.isOperation = true) ∧
        next = base.receive s stack said := by
  have hAbove : (base.above st).outer = base.group :: base.outer := by
    simp [State.above, hOuter]
  rw [State.closeWaiting_above_of base st hAbove, Result.bind_eq_ok]
  simp only [finish_eq_ok hOuter, State.receive, if_pos hForm]
  constructor
  · rintro ⟨⟨stack, said⟩, hFlush, hClose⟩
    obtain ⟨hAccepted, hClose⟩ := Result.guard_eq_ok.mp hClose
    obtain rfl := Except.ok.inj hClose
    have hOne : s.strict = true → ∃ f, stack = [f] ∧ f.isOperation = true := fun hStrict =>
      (one_operation_iff { st with stack, notices := said } hStart).mp
        (by simpa only [hStrict, true_and, not_not] using hAccepted)
    refine ⟨stack, said, ⟨hFlush, fun hStrict => ?_⟩, hOne, rfl⟩
    obtain ⟨f, rfl, -⟩ := hOne hStrict
    rfl
  · rintro ⟨stack, said, ⟨hFlush, -⟩, hOne, rfl⟩
    refine ⟨_, hFlush, Result.guard_eq_ok.mpr ⟨?_, rfl⟩⟩
    rintro ⟨hStrict, hRefused⟩
    exact hRefused
      ((one_operation_iff { st with stack, notices := said } hStart).mpr (hOne hStrict))

/-- Where operations cannot wait, a closing bracket forgets its group, and so does the end of
the text. -/
theorem closeBracketed_above_eq_ok (hLenient : s.strict = false)
    (hForm : s.form.allowsWaiting = false) (hOuter : st.outer = [])
    (hWaiting : st.group.waiting = []) :
    (base.above st).closeBracketed s next? = .ok next ↔
      ∃ stack said, st.finish s = .ok (stack, said) ∧ next = base.receive s stack said := by
  have hAbove : (base.above st).outer = base.group :: base.outer := by
    simp [State.above, hOuter]
  have hClose : (base.above st).closeBracketed s next? =
      .ok (base.receive s st.stack st.notices) := by
    rw [State.closeBracketed, hAbove]
    simp only [hLenient, Bool.false_eq_true, false_and, if_false, State.receive, hForm]
    rfl
  have hFinish : st.finish s = .ok (st.stack, st.notices) := by
    rw [finish_of_closed hOuter hWaiting, if_neg (by simp [hLenient])]
  rw [hClose, hFinish]
  constructor
  · intro hNext
    obtain rfl := Except.ok.inj hNext
    exact ⟨_, _, rfl, rfl⟩
  · rintro ⟨stack, said, hLeft, rfl⟩
    obtain ⟨rfl, rfl⟩ := Prod.mk.inj (Except.ok.inj hLeft)
    rfl

/-- The bracket that ends a group hands over what the text of the group alone comes to. -/
theorem step_closer_above (hSettings : s.strict = false ∨ s.form.allowsWaiting = true)
    (hOuter : st.outer = []) (hStart : st.group.start = 0)
    (hNone : s.form.allowsWaiting = false → st.group.waiting = []) :
    (base.above st).step s s.closer next? = .ok next ↔
      ∃ stack said, st.finish s = .ok (stack, said) ∧
        (s.strict = true → ∃ f, stack = [f] ∧ f.isOperation = true) ∧
        next = base.receive s stack said := by
  rw [step_closes, Result.mapError_eq_ok]
  cases hForm : s.form.allowsWaiting with
  | true => exact closeWaiting_above_eq_ok hForm hOuter hStart
  | false =>
      have hLenient : s.strict = false := hSettings.resolve_right (by simp [hForm])
      simpa [hLenient] using closeBracketed_above_eq_ok hLenient hForm hOuter (hNone hForm)

/-- A group is read like its text alone, up to its last bracket. -/
theorem advance_group {inner : List Token}
    (hSettings : s.strict = false ∨ s.form.allowsWaiting = true)
    (hBalanced : s.isBalanced inner = true) :
    st.advance s next? (s.opener :: (inner ++ [s.closer])) =
      State.initial.advance s none inner >>= fun last =>
        (st.above last).step s s.closer next? := by
  have hDepth : inner.foldlM s.depthAfter? State.initial.outer.length = some 0 :=
    of_decide_eq_true hBalanced
  calc
    _ = st.openGroup.advance s next? (inner ++ [s.closer]) := by
      rw [State.advance, step_opens, Result.ok_bind]
    _ = st.openGroup.advance s (some s.closer) inner >>= fun mid =>
          mid.step s s.closer next? := by
      rw [advance_append]
      refine congrArg _ (funext fun mid => ?_)
      rw [State.advance]
      exact bind_pure _
    _ = (State.initial.advance s none inner).map st.above >>= fun mid =>
          mid.step s s.closer next? := by
      rw [State.openGroup_eq_above, advance_above hSettings hDepth]
    _ = _ := by cases State.initial.advance s none inner <;> rfl

theorem read_order_eq_iff {inner : List Token} {stack : List Formula} {notices : List Notice} :
    read s (s.order inner) = ⟨.ok stack, notices ++ [.finished inner.length s]⟩ ↔
      ∃ last, State.initial.advance s none inner = .ok last ∧
        last.finish s = .ok (stack, notices.reverse) := by
  rw [read, Settings.order_order, Settings.length_order, run_eq_iff]
  constructor
  · rintro ⟨last, said, hAdvance, hFinish, hNotices⟩
    obtain rfl := List.append_cancel_right hNotices
    exact ⟨last, hAdvance, by rwa [List.reverse_reverse]⟩
  · rintro ⟨last, hAdvance, hFinish⟩
    exact ⟨last, _, hAdvance, hFinish, by rw [List.reverse_reverse]⟩

/-- Between brackets that are balanced, a reader does what a reader of that text alone would
do, in any state and whatever lies on the stack: it accepts the group when that text is
accepted, in strict reading as one operation. The stack, the open groups and the operations
that wait are then as they were, below the formulas that the text comes to, until operations
that have waited for these are applied. -/
theorem advance_group_iff {inner : List Token}
    (hSettings : s.strict = false ∨ s.form.allowsWaiting = true)
    (hBalanced : s.isBalanced inner = true) :
    st.advance s next? (s.opener :: (inner ++ [s.closer])) = .ok next ↔
      ∃ stack notices,
        read s (s.order inner) = ⟨.ok stack, notices ++ [.finished inner.length s]⟩ ∧
        (s.strict = true → ∃ f, stack = [f] ∧ f.isOperation = true) ∧
        next = st.receive s stack notices.reverse := by
  have hDepth : inner.foldlM s.depthAfter? State.initial.outer.length = some 0 :=
    of_decide_eq_true hBalanced
  have hClose (last : State) (hLast : State.initial.advance s none inner = .ok last) :
      (st.above last).step s s.closer next? = .ok next ↔
        ∃ stack said, last.finish s = .ok (stack, said) ∧
          (s.strict = true → ∃ f, stack = [f] ∧ f.isOperation = true) ∧
          next = st.receive s stack said := by
    have hCourse := advance_course hLast
    have hOuter : last.outer = [] :=
      List.length_eq_zero_iff.mp (outer_length_of_foldlM hLast hDepth)
    -- With all groups closed, the current one is that of the whole text, which starts at 0.
    have hStart : last.group.start = 0 := by simpa [hOuter, State.initial] using hCourse.start_eq
    exact step_closer_above hSettings hOuter hStart
      fun hBracketed => hCourse.waiting_eq_nil hBracketed _ (List.mem_cons_self ..)
  rw [advance_group hSettings hBalanced, Result.bind_eq_ok]
  simp only [read_order_eq_iff]
  constructor
  · rintro ⟨last, hLast, hNext⟩
    obtain ⟨stack, said, hFinish, hOne, rfl⟩ := (hClose last hLast).mp hNext
    exact ⟨stack, said.reverse, ⟨last, hLast, by rwa [List.reverse_reverse]⟩, hOne,
      by rw [List.reverse_reverse]⟩
  · rintro ⟨stack, notices, ⟨last, hLast, hFinish⟩, hOne, rfl⟩
    exact ⟨last, hLast, (hClose last hLast).mpr ⟨stack, _, hFinish, hOne, rfl⟩⟩

/-- A bracketed sum, inside another group, completes a product that waits for it. Where it is
read from back to front, an operation in its brackets finds nothing outside. -/
theorem advance_group_product :
    let strict : Settings := ⟨.infixed, true⟩
    let number (n : Int) : Formula := .constant (.integer n)
    let sum : List Token := [.coordinate .x, .operation .add, .number (.integer 1)]
    let plus : Formula := .operation .add [.coordinate .x, number 1]
    let before : State := ⟨[number 2], ⟨0, [⟨.mul, 0⟩]⟩, [⟨0, []⟩], []⟩
    let behind : State := ⟨[.operation .mul [number 2, plus]], ⟨0, []⟩, [⟨0, []⟩], []⟩
    let lenient : Settings := ⟨.prefixed, false⟩
    let lone : List Token := [.coordinate .x, .operation .add]
    let low : State := ⟨[number 2], ⟨0, []⟩, [], []⟩
    let high : State := ⟨[.coordinate .x, number 2], ⟨0, []⟩, [], [.starved .add]⟩
    before.advance strict none (.opener :: (sum ++ [.closer])) = .ok behind ∧
      low.advance lenient none (.closer :: (lone ++ [.opener])) = .ok high := by
  intro strict number sum plus before behind lenient lone low high
  constructor
  · exact (advance_group_iff (.inr rfl) (by decide)).mpr
      ⟨[plus], [], rfl, fun _ => ⟨plus, rfl, rfl⟩, rfl⟩
  · exact (advance_group_iff (.inl rfl) (by decide)).mpr
      ⟨[.coordinate .x], [.starved .add], rfl, fun hStrict => absurd hStrict (by decide), rfl⟩

end Formulas.Reading

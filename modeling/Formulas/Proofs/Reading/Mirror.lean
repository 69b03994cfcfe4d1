import Formulas.Reading.Basic
import Formulas.Proofs.Formula.Shape
import Formulas.Proofs.Result
import Formulas.Proofs.Token.Text

/-! Text with the operation before its operands is the mirror image of text with the
operation after them: tokens in the opposite order with the two brackets exchanged are
read to the mirror image of the same result, whether they are well formed or not. -/
namespace Formulas.Reading

/-- The same notice about reading in another notation. -/
def Notice.recast (form : Notation) : Notice → Notice
  | .refused _ what => .refused form what
  | .finished count settings => .finished count ⟨form, settings.strict⟩
  | notice => notice

/-- The state with every formula mirrored and all notices about the given notation. -/
def State.mirror (form : Notation) (st : State) : State :=
  { st with stack := st.stack.map Formula.mirror, notices := st.notices.map (Notice.recast form) }

/-- The outcome with every formula mirrored and all notices about the given notation. -/
def Outcome.mirror (form : Notation) (outcome : Outcome) : Outcome :=
  ⟨outcome.result.map (List.map Formula.mirror), outcome.notices.map (Notice.recast form)⟩

variable (strict : Bool)

/-- Operands come off the stack in the order in which backward text has them. -/
theorem applyTop_mirror (op : Operation) (count : Nat) (stack : List Formula) :
    applyTop ⟨.prefixed, strict⟩ op count (stack.map Formula.mirror) =
      (applyTop ⟨.postfixed, strict⟩ op count stack).map Formula.mirror := by
  simp [applyTop, Settings.arrange, Settings.isBackward, Formula.mirror_operation,
    List.map_take, List.map_drop]

theorem settle_mirror (stack : List Formula) (waiting : List Waiting) :
    settle ⟨.prefixed, strict⟩ (stack.map Formula.mirror) waiting =
      Prod.map (List.map Formula.mirror) id (settle ⟨.postfixed, strict⟩ stack waiting) := by
  induction waiting generalizing stack with
  | nil => rfl
  | cons w rest ih =>
      simp only [settle, List.length_map]
      cases w.op.arity with
      | variadic => rfl
      | exactly count =>
          by_cases hEnough : count ≤ stack.length - w.base
          · simp [hEnough, applyTop_mirror, ih]
          · simp [hEnough]

theorem flush_mirror (stack : List Formula) (notices : List Notice) (waiting : List Waiting) :
    flush ⟨.prefixed, strict⟩ (stack.map Formula.mirror)
        (notices.map (Notice.recast .prefixed)) waiting =
      (flush ⟨.postfixed, strict⟩ stack notices waiting).map
        (Prod.map (List.map Formula.mirror) (List.map (Notice.recast .prefixed))) := by
  induction waiting generalizing stack notices with
  | nil => rfl
  | cons w rest ih =>
      simp only [flush, List.length_map]
      cases w.op.arity.take? (stack.length - w.base) with
      | some count => simp only [applyTop_mirror, ih]
      | none =>
          cases strict with
          | true => rfl
          | false => simpa [Notice.recast] using ih stack (.dropped w.op :: notices)

/-- The bracket that closes a group backward is the other one. -/
theorem flip_eq_closer_iff (next? : Option Token) :
    next?.map Token.flip = some .closer ↔ next? = some .opener := by
  rcases next? with _ | token
  · simp
  · cases token <;> simp [Token.flip]

namespace State

@[simp] theorem available_mirror (st : State) :
    (st.mirror .prefixed).available = st.available := by
  simp [available, mirror]

@[simp] theorem topIsOperation_mirror (st : State) :
    (st.mirror .prefixed).topIsOperation = st.topIsOperation := by
  cases hStack : st.stack with
  | nil => simp [topIsOperation, mirror, hStack]
  | cons f rest => simp [topIsOperation, mirror, hStack]

theorem settleGroup_mirror (st : State) :
    (st.mirror .prefixed).settleGroup ⟨.prefixed, strict⟩ =
      (st.settleGroup ⟨.postfixed, strict⟩).mirror .prefixed := by
  simp [settleGroup, mirror, settle_mirror]

theorem push_mirror (f : Formula) (st : State) :
    (st.mirror .prefixed).push ⟨.prefixed, strict⟩ f.mirror =
      (st.push ⟨.postfixed, strict⟩ f).mirror .prefixed :=
  settleGroup_mirror strict { st with stack := f :: st.stack }

theorem meetBracketed_mirror (op : Operation) (next? : Option Token) (st : State) :
    (st.mirror .prefixed).meetBracketed ⟨.prefixed, strict⟩ op next? =
      (st.meetBracketed ⟨.postfixed, strict⟩ op (next?.map Token.flip)).map
        (State.mirror .prefixed) := by
  simp only [meetBracketed, Settings.closer_prefixed, Settings.closer_postfixed, ne_eq,
    flip_eq_closer_iff, available_mirror]
  by_cases hRefused : strict = true ∧ ¬ next? = some .opener
  · rw [if_pos hRefused, if_pos hRefused]
    rfl
  · rw [if_neg hRefused, if_neg hRefused]
    cases op.arity.take? st.available with
    | some count => simp [mirror, applyTop_mirror]
    | none =>
        cases strict with
        | true => rfl
        | false => simp [note, mirror, Notice.recast]

theorem closeBracketed_mirror (next? : Option Token) (st : State) :
    (st.mirror .prefixed).closeBracketed ⟨.prefixed, strict⟩ next? =
      (st.closeBracketed ⟨.postfixed, strict⟩ (next?.map Token.flip)).map
        (State.mirror .prefixed) := by
  have hOuter : (st.mirror .prefixed).outer = st.outer := rfl
  simp only [closeBracketed, Settings.closer_prefixed, Settings.closer_postfixed,
    flip_eq_closer_iff, topIsOperation_mirror, hOuter]
  by_cases hTop : strict = true ∧ ¬ st.topIsOperation = true
  · rw [if_pos hTop, if_pos hTop]
    rfl
  · rw [if_neg hTop, if_neg hTop]
    by_cases hNext : strict = true ∧ next? = some .opener
    · rw [if_pos hNext, if_pos hNext]
      rfl
    · rw [if_neg hNext, if_neg hNext]
      cases st.outer with
      | nil => cases strict <;> rfl
      | cons parent outer => rfl

theorem meetBracket_mirror (bracket : Token) (next? : Option Token) (st : State) :
    (st.mirror .prefixed).meetBracket ⟨.prefixed, strict⟩ bracket next? =
      (st.meetBracket ⟨.postfixed, strict⟩ bracket.flip (next?.map Token.flip)).map
        (State.mirror .prefixed) := by
  by_cases hOpener : bracket.flip = .opener
  · have hBackward : bracket = Settings.opener ⟨.prefixed, strict⟩ := by
      rw [← Token.flip_flip bracket, hOpener]
      rfl
    have hForward : bracket.flip = Settings.opener ⟨.postfixed, strict⟩ := hOpener
    rw [meetBracket, meetBracket, if_pos hBackward, if_pos hForward]
    simp [openGroup, mirror]
  · have hBackward : bracket ≠ Settings.opener ⟨.prefixed, strict⟩ := by
      rintro rfl
      exact hOpener rfl
    have hForward : bracket.flip ≠ Settings.opener ⟨.postfixed, strict⟩ := hOpener
    rw [meetBracket, meetBracket, if_neg hBackward, if_neg hForward]
    exact closeBracketed_mirror strict next? st

/-- One step backward is the mirror image of the step that the other bracket or the same
other token makes forward. -/
theorem step_mirror (token : Token) (next? : Option Token) (st : State) :
    (st.mirror .prefixed).step ⟨.prefixed, strict⟩ token next? =
      (st.step ⟨.postfixed, strict⟩ token.flip (next?.map Token.flip)).map
        (State.mirror .prefixed) := by
  cases token with
  | opener => simp [step, Token.flip, meetBracket_mirror, Result.mapError_map]
  | closer => simp [step, Token.flip, meetBracket_mirror, Result.mapError_map]
  | operation op =>
      simp [step, Token.flip, Notation.allowsWaiting, meetBracketed_mirror, Result.mapError_map]
  | coordinate which => exact congrArg Except.ok (push_mirror strict (.coordinate which) st)
  | number value => exact congrArg Except.ok (push_mirror strict (.constant value) st)
  | oversized => rfl
  | unknown text =>
      cases strict with
      | true => rfl
      | false => simp [step, Token.flip, note, mirror, Notice.recast]

end State

theorem finishGroups_mirror (stack : List Formula) (notices : List Notice) (group : Group)
    (outer : List Group) :
    finishGroups ⟨.prefixed, strict⟩ (stack.map Formula.mirror)
        (notices.map (Notice.recast .prefixed)) group outer =
      (finishGroups ⟨.postfixed, strict⟩ stack notices group outer).map
        (Prod.map (List.map Formula.mirror) (List.map (Notice.recast .prefixed))) := by
  induction outer generalizing stack notices group with
  | nil => exact flush_mirror strict stack notices group.waiting
  | cons parent outer ih =>
      simp only [finishGroups, flush_mirror]
      cases flush ⟨.postfixed, strict⟩ stack notices group.waiting with
      | error what => rfl
      | ok flushed => simp [settle_mirror, ih]

theorem State.finish_mirror (st : State) :
    (st.mirror .prefixed).finish ⟨.prefixed, strict⟩ =
      (st.finish ⟨.postfixed, strict⟩).map
        (Prod.map (List.map Formula.mirror) (List.map (Notice.recast .prefixed))) := by
  simp only [finish, mirror, finishGroups_mirror]
  split_ifs
  · rfl
  · cases finishGroups ⟨.postfixed, strict⟩ st.stack st.notices st.group st.outer with
    | error what => rfl
    | ok left =>
        simp only [Result.map_ok, Result.ok_bind, Prod.map_fst, List.length_map]
        split_ifs <;> rfl

theorem stop_mirror (st : State) (fault : Fault) :
    stop ⟨.prefixed, strict⟩ (st.mirror .prefixed) fault =
      (stop ⟨.postfixed, strict⟩ st fault).mirror .prefixed := by
  cases fault with
  | mistake what => simp [stop, Outcome.mirror, State.mirror, Notice.recast]
  | numeralTooLong => simp [stop, Outcome.mirror, State.mirror]

/-- The two readers stay mirror images of each other from any state on. -/
theorem run_mirror (count : Nat) (st : State) (tokens : List Token) :
    run ⟨.prefixed, strict⟩ count (st.mirror .prefixed) tokens =
      (run ⟨.postfixed, strict⟩ count st (tokens.map Token.flip)).mirror .prefixed := by
  induction tokens generalizing st with
  | nil =>
      simp only [run, List.map_nil, State.finish_mirror]
      cases st.finish ⟨.postfixed, strict⟩ with
      | error what => exact stop_mirror strict st (.mistake what)
      | ok left => simp [Outcome.mirror, Notice.recast]
  | cons token rest ih =>
      simp only [run, List.map_cons, State.step_mirror, List.head?_map]
      cases st.step ⟨.postfixed, strict⟩ token.flip (rest.head?.map Token.flip) with
      | error fault => exact stop_mirror strict st fault
      | ok next => exact ih next

/-- Text with the operation before its operands is read to the mirror image of what the
mirrored text with the operation after them is read to, with the same notices. -/
theorem read_prefixed (tokens : List Token) :
    read ⟨.prefixed, strict⟩ tokens =
      (read ⟨.postfixed, strict⟩ (Token.backward tokens)).mirror .prefixed := by
  have hInitial : State.initial.mirror .prefixed = .initial := rfl
  have hRun := run_mirror strict tokens.length .initial tokens.reverse
  rw [hInitial] at hRun
  simpa [read, Settings.order, Settings.isBackward, Token.backward] using hRun

theorem Outcome.root?_mirror (form : Notation) (outcome : Outcome) :
    (outcome.mirror form).root? = outcome.root?.map (Option.map Formula.mirror) := by
  cases hResult : outcome.result with
  | error fault => simp [root?, mirror, hResult]
  | ok stack => simp [root?, mirror, hResult]

/-- Whatever the pieces of text are, reading them with operations before their operands
comes to the same as reading the mirrored pieces with operations after their operands: to
nothing, to the same fault, or to formulas that are mirror images of each other. -/
theorem root?_prefixed_eq_mirror (pieces : List String) :
    (read ⟨.prefixed, strict⟩ (pieces.map Token.ofText)).root? =
      (read ⟨.postfixed, strict⟩ ((Token.backwardTexts pieces).map Token.ofText)).root?.map
        (Option.map Formula.mirror) := by
  rw [read_prefixed, Outcome.root?_mirror, Token.backward_map_ofText]

end Formulas.Reading

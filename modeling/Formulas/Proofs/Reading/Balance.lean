import Formulas.Proofs.Reading.Advance

/-! Balanced brackets. A reader has as many groups open as the brackets that it has read say,
except that a closing bracket without a group is passed over where mistakes are repaired. -/
namespace Formulas

namespace Token

/-- Of two brackets, the second one never closes what the first one has not opened, and all that is
opened is closed. -/
def Nested (opens closes : Token) (tokens : List Token) : Prop :=
  (∀ front, front <+: tokens → front.count closes ≤ front.count opens) ∧
    tokens.count opens = tokens.count closes

/-- The brackets are balanced in the order of the text. -/
def Balanced (tokens : List Token) : Prop :=
  Nested .opener .closer tokens

/-- Back to front, the brackets exchange their roles. -/
theorem Nested.reverse {opens closes : Token} {tokens : List Token}
    (hNested : Nested opens closes tokens) : Nested closes opens tokens.reverse := by
  obtain ⟨hFronts, hTotal⟩ := hNested
  refine ⟨fun front hFront => ?_, by rw [List.count_reverse, List.count_reverse, hTotal]⟩
  obtain ⟨rest, hRest⟩ := List.reverse_suffix.mpr hFront
  rw [List.reverse_reverse] at hRest
  have hBefore := hFronts rest ⟨_, hRest⟩
  rw [← hRest] at hTotal
  simp only [List.count_append, List.count_reverse] at hTotal
  omega

end Token

namespace Reading

namespace Settings

/-- The number of open groups after one more token, if a closing bracket has one to close. -/
def depthAfter? (s : Settings) (depth : Nat) (token : Token) : Option Nat :=
  if token = s.opener then some (depth + 1)
  else if token = s.closer then if depth = 0 then none else some (depth - 1)
  else some depth

/-- In the order of reading, every closing bracket closes a group, and none stays open. -/
def isBalanced (s : Settings) (tokens : List Token) : Bool :=
  tokens.foldlM s.depthAfter? 0 = some 0

variable {s : Settings} {token : Token} {depth : Nat}

theorem depthAfter?_opener : s.depthAfter? depth s.opener = some (depth + 1) :=
  if_pos rfl

theorem depthAfter?_closer : s.depthAfter? (depth + 1) s.closer = some depth := by
  simp [depthAfter?, s.opener_ne_closer.symm]

theorem depthAfter?_closer_zero : s.depthAfter? 0 s.closer = none := by
  simp [depthAfter?, s.opener_ne_closer.symm]

theorem depthAfter?_of_ne (hOpener : token ≠ s.opener) (hCloser : token ≠ s.closer) :
    s.depthAfter? depth token = some depth := by
  simp [depthAfter?, hOpener, hCloser]

theorem forall_prefix_cons {A : Type} {P : List A → Prop} {a : A} {rest : List A} :
    (∀ front, front <+: a :: rest → P front) ↔ P [] ∧ ∀ front, front <+: rest → P (a :: front) := by
  simp only [List.prefix_cons_iff, forall_eq_or_imp, forall_exists_index, and_imp]
  exact and_congr_right fun _ => ⟨fun hAll front hFront => hAll _ front rfl hFront,
    fun hAll _ front hSame hFront => hSame ▸ hAll front hFront⟩

/-- The number of open groups is that of the brackets that open, without those that close. -/
theorem foldlM_depthAfter?_eq_some {tokens : List Token} {last : Nat} :
    tokens.foldlM s.depthAfter? depth = some last ↔
      (∀ front, front <+: tokens → front.count s.closer ≤ depth + front.count s.opener) ∧
        depth + tokens.count s.opener = last + tokens.count s.closer := by
  induction tokens generalizing depth with
  | nil => simp
  | cons token rest ih =>
      rw [forall_prefix_cons, List.foldlM_cons]
      simp only [List.count_cons, List.count_nil, Nat.zero_le, true_and]
      by_cases hOpener : token = s.opener
      · subst hOpener
        have hOther := s.opener_ne_closer
        rw [depthAfter?_opener, Option.bind_eq_bind, Option.bind_some, ih]
        grind
      by_cases hCloser : token = s.closer
      · subst hCloser
        have hOther := s.opener_ne_closer
        cases depth with
        | zero =>
            -- The front that is this bracket alone closes what has not been opened.
            rw [depthAfter?_closer_zero]
            refine iff_of_false (by simp) fun ⟨hFronts, _⟩ => ?_
            simpa [hOther.symm] using hFronts [] List.nil_prefix
        | succ depth =>
            rw [depthAfter?_closer, Option.bind_eq_bind, Option.bind_some, ih]
            grind
      · rw [depthAfter?_of_ne hOpener hCloser, Option.bind_eq_bind, Option.bind_some, ih]
        grind

/-- Brackets are balanced in the order of reading if they are in that of the text. -/
theorem isBalanced_order_iff {tokens : List Token} :
    s.isBalanced (s.order tokens) = true ↔ Token.Balanced tokens := by
  have hNested : s.isBalanced (s.order tokens) = true ↔
      Token.Nested s.opener s.closer (s.order tokens) := by
    rw [isBalanced, decide_eq_true_iff, foldlM_depthAfter?_eq_some]
    simp only [Nat.zero_add, Token.Nested]
  rw [hNested, Token.Balanced]
  cases hBackward : s.isBackward with
  | false => simp only [order, opener, closer, hBackward, Bool.false_eq_true, if_false]
  | true =>
      simp only [order, opener, closer, hBackward, if_true]
      exact ⟨fun hBack => tokens.reverse_reverse ▸ hBack.reverse, Token.Nested.reverse⟩

end Settings

variable {s : Settings} {st next : State} {token : Token} {next? behind? : Option Token}
  {tokens : List Token}

namespace State

theorem outer_meetWaiting (op : Operation) : (st.meetWaiting s op).outer = st.outer := by
  unfold meetWaiting
  split <;> rfl

theorem outer_of_meetBracketed {op : Operation} (hMeet : st.meetBracketed s op next? = .ok next) :
    next.outer = st.outer := by
  obtain ⟨-, hMeet⟩ := Result.guard_eq_ok.mp hMeet
  split at hMeet
  · obtain rfl := Except.ok.inj hMeet
    rfl
  · obtain rfl := Except.ok.inj (Result.guard_eq_ok.mp hMeet).2
    rfl

/-- A token that is no bracket neither opens nor closes a group. -/
theorem outer_of_step (hOpener : token ≠ s.opener) (hCloser : token ≠ s.closer)
    (hStep : st.step s token next? = .ok next) : next.outer = st.outer := by
  obtain ⟨hNoOpener, hNoCloser⟩ := Settings.ne_brackets hOpener hCloser
  cases token with
  | opener => exact absurd rfl hNoOpener
  | closer => exact absurd rfl hNoCloser
  | coordinate which =>
      obtain rfl := Except.ok.inj hStep
      rfl
  | number value =>
      obtain rfl := Except.ok.inj hStep
      rfl
  | operation op =>
      simp only [step] at hStep
      split_ifs at hStep
      · obtain rfl := Except.ok.inj hStep
        exact outer_meetWaiting op
      · exact outer_of_meetBracketed (Result.mapError_eq_ok.mp hStep)
  | oversized => simp [step] at hStep
  | unknown text =>
      obtain rfl := Except.ok.inj (Result.guard_eq_ok.mp hStep).2
      rfl

/-- A closing bracket returns to the innermost group around the current one. Where there is
none, it changes nothing, if it is not refused. -/
theorem outer_of_closeWaiting (hClose : st.closeWaiting s = .ok next) :
    (∃ parent, st.outer = parent :: next.outer) ∨ s.strict = false ∧ st.outer = [] := by
  simp only [closeWaiting] at hClose
  cases hOuter : st.outer with
  | nil =>
      rw [hOuter] at hClose
      exact .inr ⟨by simpa using (Result.guard_eq_ok.mp hClose).1, rfl⟩
  | cons parent outer =>
      rw [hOuter] at hClose
      obtain ⟨flushed, -, hClose⟩ := Result.bind_eq_ok.mp hClose
      obtain rfl := Except.ok.inj (Result.guard_eq_ok.mp hClose).2
      exact .inl ⟨parent, rfl⟩

theorem outer_of_closeBracketed (hClose : st.closeBracketed s next? = .ok next) :
    (∃ parent, st.outer = parent :: next.outer) ∨ s.strict = false ∧ st.outer = [] := by
  obtain ⟨-, hClose⟩ := Result.guard_eq_ok.mp hClose
  obtain ⟨-, hClose⟩ := Result.guard_eq_ok.mp hClose
  cases hOuter : st.outer with
  | nil =>
      rw [hOuter] at hClose
      exact .inr ⟨by simpa using (Result.guard_eq_ok.mp hClose).1, rfl⟩
  | cons parent outer =>
      rw [hOuter] at hClose
      obtain rfl := Except.ok.inj hClose
      exact .inl ⟨parent, rfl⟩

end State

/-- A step opens and closes groups as its token says, or passes over a closing bracket. -/
theorem depthAfter?_step (hStep : st.step s token next? = .ok next) :
    s.depthAfter? st.outer.length token = some next.outer.length ∨
      s.strict = false ∧ token = s.closer ∧ st.outer = [] := by
  by_cases hOpener : token = s.opener
  · subst hOpener
    rw [step_opens] at hStep
    obtain rfl := Except.ok.inj hStep
    exact .inl Settings.depthAfter?_opener
  by_cases hCloser : token = s.closer
  · subst hCloser
    rw [step_closes, Result.mapError_eq_ok] at hStep
    have hOuter : (∃ parent, st.outer = parent :: next.outer) ∨
        s.strict = false ∧ st.outer = [] := by
      split_ifs at hStep
      · exact State.outer_of_closeWaiting hStep
      · exact State.outer_of_closeBracketed hStep
    rcases hOuter with ⟨parent, hOuter⟩ | ⟨hLenient, hOuter⟩
    · rw [hOuter]
      exact .inl Settings.depthAfter?_closer
    · exact .inr ⟨hLenient, rfl, hOuter⟩
  · rw [State.outer_of_step hOpener hCloser hStep]
    exact .inl (Settings.depthAfter?_of_ne hOpener hCloser)

/-- Where no closing bracket is passed over, the brackets tell how many groups are open. -/
theorem outer_length_of_depthAfter? {depth : Nat} (hStep : st.step s token next? = .ok next)
    (hDepth : s.depthAfter? st.outer.length token = some depth) : next.outer.length = depth := by
  rcases depthAfter?_step hStep with hAfter | ⟨-, rfl, hOuter⟩
  · exact Option.some.inj (hAfter.symm.trans hDepth)
  · rw [hOuter, List.length_nil, Settings.depthAfter?_closer_zero] at hDepth
    exact absurd hDepth (by simp)

theorem outer_length_of_foldlM {depth : Nat} (hAdvance : st.advance s behind? tokens = .ok next)
    (hDepth : tokens.foldlM s.depthAfter? st.outer.length = some depth) :
    next.outer.length = depth := by
  induction tokens generalizing st with
  | nil =>
      obtain rfl := Except.ok.inj hAdvance
      exact Option.some.inj hDepth
  | cons token rest ih =>
      obtain ⟨mid, hStep, hLater⟩ := advance_cons_eq_ok.mp hAdvance
      obtain ⟨after, hAfter, hRest⟩ := Option.bind_eq_some_iff.mp hDepth
      rw [← outer_length_of_depthAfter? hStep hAfter] at hRest
      exact ih hLater hRest

/-- Strict reading passes over no closing bracket. -/
theorem strict_depth_advance (hStrict : s.strict = true)
    (hAdvance : st.advance s behind? tokens = .ok next) :
    tokens.foldlM s.depthAfter? st.outer.length = some next.outer.length := by
  induction tokens generalizing st with
  | nil =>
      obtain rfl := Except.ok.inj hAdvance
      rfl
  | cons token rest ih =>
      obtain ⟨mid, hStep, hLater⟩ := advance_cons_eq_ok.mp hAdvance
      rcases depthAfter?_step hStep with hAfter | ⟨hLenient, -⟩
      · rw [List.foldlM_cons, hAfter]
        exact ih hLater
      · simp [hStrict] at hLenient

theorem strict_isBalanced {stack : List Formula} (hStrict : s.strict = true)
    (hRead : (read s tokens).result = .ok stack) : s.isBalanced (s.order tokens) = true := by
  obtain ⟨last, said, hAdvance, hFinish, -⟩ := advance_of_read hRead
  have hClosed : last.outer = [] := by
    by_contra hOpen
    simp [finish_of_open hStrict hOpen] at hFinish
  have hDepth := strict_depth_advance hStrict hAdvance
  rw [hClosed] at hDepth
  exact decide_eq_true hDepth

end Reading

end Formulas

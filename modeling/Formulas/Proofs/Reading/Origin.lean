import Formulas.Proofs.Reading.Advance

/-! Where waiting operations come from. An operation that waits in a group has come with its token,
and has waited there at every moment since, in front of the same older ones. -/
namespace Formulas.Reading

/-- In the group with so many groups around it, these operations have waited longest. -/
def State.Holds (st : State) (depth : Nat) (waiting : List Waiting) : Prop :=
  ∃ inner g outer, st.group :: st.outer = inner ++ g :: outer ∧ outer.length = depth ∧
    waiting <:+ g.waiting

variable {s : Settings} {st next last : State} {tokens : List Token} {behind? : Option Token}
  {depth : Nat} {w : Waiting} {older : List Waiting}

theorem State.holds_group (hSuffix : older <:+ st.group.waiting) :
    st.Holds st.outer.length older :=
  ⟨[], st.group, st.outer, rfl, rfl, hSuffix⟩

/-- What the groups around the current one hold does not depend on that. -/
theorem State.holds_iff : st.Holds depth older ↔
    (st.outer.length = depth ∧ older <:+ st.group.waiting) ∨
      ∃ inner g outer, st.outer = inner ++ g :: outer ∧ outer.length = depth ∧
        older <:+ g.waiting := by
  constructor
  · rintro ⟨inner, g, outer, hGroups, hDepth, hSuffix⟩
    cases inner with
    | nil =>
        obtain ⟨rfl, rfl⟩ := List.cons.inj hGroups
        exact .inl ⟨hDepth, hSuffix⟩
    | cons _ inner =>
        obtain ⟨rfl, hOuter⟩ := List.cons.inj hGroups
        exact .inr ⟨inner, g, outer, hOuter, hDepth, hSuffix⟩
  · rintro (⟨rfl, hSuffix⟩ | ⟨inner, g, outer, hOuter, hDepth, hSuffix⟩)
    · exact State.holds_group hSuffix
    · exact ⟨st.group :: inner, g, outer, by rw [hOuter]; rfl, hDepth, hSuffix⟩

/-- A move that reads no operation lets none wait. -/
theorem Move.holds (move : Move s st tokens next) (hNone : ∀ op, .operation op ∉ tokens)
    (hHolds : next.Holds depth (w :: older)) : st.Holds depth (w :: older) := by
  cases move with
  | push hLeaf => exact hHolds
  | apply hTake => exact hHolds
  | starve hLenient hFew => exact hHolds
  | skip hLenient => exact hHolds
  | ignore hLenient hOuter => exact hHolds
  | @await op base hWaits hBase => exact absurd (List.mem_singleton_self _) (hNone op)
  | enter =>
      rcases State.holds_iff.mp hHolds with ⟨-, hSuffix⟩ | hOuter
      · exact absurd (List.eq_nil_of_suffix_nil hSuffix) (List.cons_ne_nil _ _)
      · exact hOuter
  | complete hWaiting hTake =>
      refine State.holds_iff.mpr ((State.holds_iff.mp hHolds).imp_left fun ⟨hDepth, hSuffix⟩ => ?_)
      exact ⟨hDepth, hWaiting ▸ hSuffix.trans (List.suffix_cons _ _)⟩
  | drop hLenient hWaiting hFew =>
      refine State.holds_iff.mpr ((State.holds_iff.mp hHolds).imp_left fun ⟨hDepth, hSuffix⟩ => ?_)
      exact ⟨hDepth, hWaiting ▸ hSuffix.trans (List.suffix_cons _ _)⟩
  | leave hOuter hWaiting => exact State.holds_iff.mpr (.inr (hOuter ▸ hHolds))
  | abandon hLenient hOuter hWaiting => exact State.holds_iff.mpr (.inr (hOuter ▸ hHolds))

theorem Course.holds (course : Course s st tokens next) (hNone : ∀ op, .operation op ∉ tokens)
    (hHolds : next.Holds depth (w :: older)) : st.Holds depth (w :: older) := by
  induction course with
  | refl => exact hHolds
  | move prior last ih =>
      refine ih (fun op hOp => hNone op (List.mem_append_left _ hOp)) (last.holds ?_ hHolds)
      exact fun op hOp => hNone op (List.mem_append_right _ hOp)

/-- The height above which an operation finds its operands that has to wait for them. -/
def State.base (st : State) : Nat :=
  if st.group.waiting = [] then st.group.start else st.stack.length

/-- The operation has to wait, above the base, in front of those that wait in its group already. -/
structure Waits (s : Settings) (st : State) (w : Waiting) (older : List Waiting) : Prop where
  allowed : s.form.allowsWaiting = true
  base : w.base = st.base
  waiting : st.group.waiting = older
  meets : st.meetWaiting s w.op = st.await w.op w.base

theorem State.meetWaiting_cases (s : Settings) (st : State) (op : Operation) :
    (∃ count, st.meetWaiting s op = { st with stack := applyTop s op count st.stack }) ∨
      st.meetWaiting s op = st.await op st.base := by
  unfold meetWaiting base
  split
  · exact .inl ⟨_, rfl⟩
  · next hWaiting _ => exact .inr (by rw [if_pos hWaiting])
  · next hWaiting => exact .inr (by rw [if_neg (by simp [hWaiting])])

theorem holds_meetWaiting {op : Operation} (hForm : s.form.allowsWaiting = true)
    (hHolds : (st.meetWaiting s op).Holds depth (w :: older)) :
    st.Holds depth (w :: older) ∨ op = w.op ∧ st.outer.length = depth ∧ Waits s st w older := by
  rcases st.meetWaiting_cases s op with ⟨count, hMeets⟩ | hMeets
  · rw [hMeets] at hHolds
    exact .inl hHolds
  · rw [hMeets] at hHolds
    rcases State.holds_iff.mp hHolds with ⟨hDepth, hSuffix⟩ | hOuter
    · rcases List.suffix_cons_iff.mp hSuffix with hSame | hSuffix
      · obtain ⟨rfl, rfl⟩ := List.cons.inj hSame
        exact .inr ⟨rfl, hDepth, hForm, rfl, rfl, hMeets⟩
      · exact .inl (State.holds_iff.mpr (.inl ⟨hDepth, hSuffix⟩))
    · exact .inl (State.holds_iff.mpr (.inr hOuter))

/-- The operation that waits in front of the older ones has waited before, or its token has just
been read. -/
theorem holds_step {token : Token} {next? : Option Token}
    (hStep : st.step s token next? = .ok next) (hHolds : next.Holds depth (w :: older)) :
    st.Holds depth (w :: older) ∨ token = .operation w.op ∧ st.outer.length = depth ∧
      Waits s st w older ∧ next = st.await w.op w.base := by
  by_cases hOperation : ∃ op, token = .operation op
  · obtain ⟨op, rfl⟩ := hOperation
    simp only [State.step] at hStep
    split_ifs at hStep with hForm
    · obtain rfl := Except.ok.inj hStep
      refine (holds_meetWaiting hForm hHolds).imp_right ?_
      rintro ⟨rfl, hDepth, hWaits⟩
      exact ⟨rfl, hDepth, hWaits, hWaits.meets⟩
    · refine .inl ?_
      obtain ⟨-, hMeet⟩ := Result.guard_eq_ok.mp (Result.mapError_eq_ok.mp hStep)
      split at hMeet
      · obtain rfl := Except.ok.inj hMeet
        exact hHolds
      · obtain rfl := Except.ok.inj (Result.guard_eq_ok.mp hMeet).2
        exact hHolds
  · refine .inl ((step_course hStep).holds (fun op hOp => hOperation ⟨op, ?_⟩) hHolds)
    exact (List.mem_singleton.mp hOp).symm

/-- At every moment while the tokens are read, the group with so many groups around it has these
operations waiting. -/
def Keeps (s : Settings) (behind? : Option Token) (st : State) (tokens : List Token) (depth : Nat)
    (waiting : List Waiting) : Prop :=
  ∀ front back mid, tokens = front ++ back →
    st.advance s (back.head?.or behind?) front = .ok mid → mid.Holds depth waiting

theorem Keeps.cons {token : Token} {waiting : List Waiting}
    (hStep : st.step s token (tokens.head?.or behind?) = .ok next) (hHolds : st.Holds depth waiting)
    (hKeeps : Keeps s behind? next tokens depth waiting) :
    Keeps s behind? st (token :: tokens) depth waiting := by
  intro front back mid hTokens hAdvance
  cases front with
  | nil =>
      obtain rfl := Except.ok.inj hAdvance
      exact hHolds
  | cons _ front =>
      rw [List.cons_append] at hTokens
      obtain ⟨rfl, hSplit⟩ := List.cons.inj hTokens
      obtain ⟨after, hFirst, hRest⟩ := advance_cons_eq_ok.mp hAdvance
      rw [hSplit, List.head?_append, Option.or_assoc] at hStep
      obtain rfl := Except.ok.inj (hFirst.symm.trans hStep)
      exact hKeeps front back mid hSplit hRest

/-- An operation that waits behind the tokens has waited from the first of them on, or else from
one on that is its own. -/
theorem keeps_or_waits (hAdvance : st.advance s behind? tokens = .ok last)
    (hHolds : last.Holds depth (w :: older)) :
    Keeps s behind? st tokens depth (w :: older) ∨
      ∃ passed seen mid, tokens = passed ++ .operation w.op :: seen ∧
        st.advance s (some (.operation w.op)) passed = .ok mid ∧ mid.outer.length = depth ∧
        Waits s mid w older ∧ (mid.await w.op w.base).advance s behind? seen = .ok last ∧
        Keeps s behind? (mid.await w.op w.base) seen depth (w :: older) := by
  induction tokens generalizing st with
  | nil =>
      obtain rfl := Except.ok.inj hAdvance
      left
      intro front back mid hTokens hMid
      obtain ⟨rfl, rfl⟩ := List.nil_eq_append_iff.mp hTokens
      obtain rfl := Except.ok.inj hMid
      exact hHolds
  | cons token rest ih =>
      obtain ⟨next, hStep, hRest⟩ := advance_cons_eq_ok.mp hAdvance
      rcases ih hRest with hKeeps | ⟨passed, seen, mid, rfl, hPassed, hOrigin⟩
      · rcases holds_step hStep (hKeeps [] rest next rfl rfl) with hEarlier | ⟨rfl, hOrigin⟩
        · exact .inl (hKeeps.cons hStep hEarlier)
        · obtain ⟨hDepth, hWaits, rfl⟩ := hOrigin
          exact .inr ⟨[], rest, st, rfl, rfl, hDepth, hWaits, hRest, hKeeps⟩
      · right
        refine ⟨token :: passed, seen, mid, rfl, advance_cons_eq_ok.mpr ⟨next, ?_, hPassed⟩,
          hOrigin⟩
        rwa [List.head?_append, Option.or_assoc] at hStep

theorem not_holds_initial : ¬ State.initial.Holds depth (w :: older) := by
  intro hHolds
  rcases State.holds_iff.mp hHolds with ⟨-, hSuffix⟩ | ⟨inner, g, outer, hOuter, -⟩
  · exact absurd (List.eq_nil_of_suffix_nil hSuffix) (List.cons_ne_nil _ _)
  · exact absurd hOuter.symm (by simp [State.initial])

/-- An operation that waits has come with a token, and has waited ever since. -/
theorem exists_waits (hAdvance : State.initial.advance s behind? tokens = .ok last)
    (hHolds : last.Holds depth (w :: older)) :
    ∃ passed seen st, tokens = passed ++ .operation w.op :: seen ∧
      State.initial.advance s (some (.operation w.op)) passed = .ok st ∧ st.outer.length = depth ∧
      Waits s st w older ∧ (st.await w.op w.base).advance s behind? seen = .ok last ∧
      Keeps s behind? (st.await w.op w.base) seen depth (w :: older) :=
  (keeps_or_waits hAdvance hHolds).resolve_left fun hKeeps =>
    not_holds_initial (hKeeps [] tokens .initial rfl rfl)

end Formulas.Reading

import Formulas.Proofs.Operation
import Formulas.Proofs.Reading.Advance
import Mathlib.Order.Nat

/-! The discipline of the stack. The heights that a reader writes down stay in order: groups start
one above the other, and the operations that wait in a group count their operands from heights
within that group. So an operation never takes what lies below its group, although the height of
the stack rises and falls while operations wait. -/
namespace Formulas.Reading

/-- From the first operation that waits to the last the bases do not fall, and they lie between the
start of the group and the height up to which it reaches. -/
structure Group.IsOrdered (g : Group) (height : Nat) : Prop where
  start_le : g.start ≤ height
  bounds : ∀ w ∈ g.waiting, g.start ≤ w.base ∧ w.base ≤ height
  bases : g.waiting.Pairwise fun later earlier => earlier.base ≤ later.base

/-- Each group reaches up to the start of the next inner one, and the innermost up to the height. -/
def AreStacked : Nat → List Group → Prop
  | _, [] => True
  | height, g :: outer => g.IsOrdered height ∧ AreStacked g.start outer

/-- The groups lie in order within the height of the stack, the outermost of them starts at its
bottom, and operations wait only where the notation lets them. -/
structure State.IsDisciplined (s : Settings) (st : State) : Prop where
  groups : AreStacked st.stack.length (st.group :: st.outer)
  bottom : (st.outer.map Group.start).getLastD st.group.start = 0
  idle : s.form.allowsWaiting = false → st.Idle

/-- The operation that waits last in the current group lacks operands, if it wants so many. -/
def State.IsSettled (st : State) : Prop :=
  ∀ w ∈ st.group.waiting.head?, w.op.TakesMore (st.stack.length - w.base)

/-- The stack is as it was, or it has a leaf more, or an operation has taken its operands off it,
all of which lay at or above the start of the current group. -/
def State.TouchesGroup (s : Settings) (st next : State) : Prop :=
  next.stack = st.stack ∨ (∃ f, f.isOperation = false ∧ next.stack = f :: st.stack) ∨
    ∃ op taken kept, st.stack = taken ++ kept ∧
      next.stack = .operation op (s.arrange taken) :: kept ∧ st.group.start ≤ kept.length

/-- A move that applies an operation at once only where no other one waits. -/
def Turn (s : Settings) (st : State) (tokens : List Token) (next : State) : Prop :=
  Move s st tokens next ∧
    ∀ op, tokens = [.operation op] → st.group.waiting = [] ∨ next.stack = st.stack

/-- Turns one after another, with all tokens that are read by them. -/
inductive Passage (s : Settings) : State → List Token → State → Prop where
  | refl (st : State) : Passage s st [] st
  | turn {st mid next : State} {tokens more : List Token} (prior : Passage s st tokens mid)
      (last : Turn s mid more next) : Passage s st (tokens ++ more) next

variable {s : Settings} {st mid next last : State} {tokens more : List Token}

namespace Passage

theorem single (last : Turn s st tokens next) : Passage s st tokens next :=
  .turn (.refl st) last

theorem trans (first : Passage s st tokens mid) (second : Passage s mid more next) :
    Passage s st (tokens ++ more) next := by
  induction second with
  | refl => simpa using first
  | turn prior last ih => simpa using Passage.turn ih last

end Passage

/-- A course on which no operation is read is made of turns. -/
theorem Course.passage (course : Course s st tokens next) (hNone : ∀ op, .operation op ∉ tokens) :
    Passage s st tokens next := by
  induction course with
  | refl => exact .refl _
  | move prior last ih =>
      refine .turn (ih fun op hOp => hNone op (List.mem_append_left _ hOp)) ⟨last, ?_⟩
      rintro op rfl
      exact absurd (List.mem_append_right _ (List.mem_singleton_self _)) (hNone op)

/-! What one turn keeps. -/

theorem Group.IsOrdered.mono {g : Group} {height higher : Nat} (hOrdered : g.IsOrdered height)
    (hLe : height ≤ higher) : g.IsOrdered higher where
  start_le := hOrdered.start_le.trans hLe
  bounds w hw := ⟨(hOrdered.bounds w hw).1, (hOrdered.bounds w hw).2.trans hLe⟩
  bases := hOrdered.bases

theorem Group.isOrdered_of_idle {g : Group} {height : Nat} (hIdle : g.waiting = [])
    (hLe : g.start ≤ height) : g.IsOrdered height where
  start_le := hLe
  bounds := by simp [hIdle]
  bases := by simp [hIdle]

theorem AreStacked.mono {groups : List Group} {height higher : Nat}
    (hStacked : AreStacked height groups) (hLe : height ≤ higher) : AreStacked higher groups := by
  cases groups with
  | nil => trivial
  | cons g outer => exact ⟨hStacked.1.mono hLe, hStacked.2⟩

/-- The operation that came last in its group leaves those before it in order, at every height that
is not below its base. -/
theorem AreStacked.tail {start height higher : Nat} {w : Waiting} {rest : List Waiting}
    {outer : List Group} (hStacked : AreStacked height (⟨start, w :: rest⟩ :: outer))
    (hLe : w.base ≤ higher) : AreStacked higher (⟨start, rest⟩ :: outer) := by
  obtain ⟨hGroup, hOuter⟩ := hStacked
  obtain ⟨hLast, hEarlier⟩ := List.pairwise_cons.mp hGroup.bases
  have hBase := hGroup.bounds w (List.mem_cons_self ..)
  refine ⟨⟨hBase.1.trans hLe, fun earlier hMem => ?_, hEarlier⟩, hOuter⟩
  exact ⟨(hGroup.bounds earlier (List.mem_cons_of_mem _ hMem)).1, (hLast earlier hMem).trans hLe⟩

theorem AreStacked.await {op : Operation} {height base : Nat} {g : Group} {outer : List Group}
    (hStacked : AreStacked height (g :: outer))
    (hBase : base = if g.waiting = [] then g.start else height) :
    AreStacked height ({ g with waiting := ⟨op, base⟩ :: g.waiting } :: outer) := by
  obtain ⟨hGroup, hOuter⟩ := hStacked
  have hBounds : g.start ≤ base ∧ base ≤ height := by
    rw [hBase]
    split_ifs
    · exact ⟨Nat.le_refl _, hGroup.start_le⟩
    · exact ⟨hGroup.start_le, Nat.le_refl _⟩
  refine ⟨⟨hGroup.start_le, List.forall_mem_cons.mpr ⟨hBounds, hGroup.bounds⟩, ?_⟩, hOuter⟩
  refine List.pairwise_cons.mpr ⟨fun earlier hMem => ?_, hGroup.bases⟩
  rw [hBase, if_neg (List.ne_nil_of_mem hMem)]
  exact (hGroup.bounds earlier hMem).2

/-- An operation that takes what lies above a height leaves itself there. -/
theorem length_applyTop {op : Operation} {base count : Nat} {stack : List Formula}
    (hTake : op.arity.take? (stack.length - base) = some count) (hBase : base ≤ stack.length) :
    base < (applyTop s op count stack).length := by
  have hCount := (Arity.take?_eq_some hTake).2
  rw [applyTop, List.length_cons, List.length_drop]
  omega

theorem Turn.areStacked (turn : Turn s st tokens next) (hDisciplined : st.IsDisciplined s) :
    AreStacked next.stack.length (next.group :: next.outer) := by
  obtain ⟨move, hMeets⟩ := turn
  have hStacked := hDisciplined.groups
  cases move with
  | push hLeaf => exact hStacked.mono (Nat.le_succ _)
  | enter => exact ⟨Group.isOrdered_of_idle rfl (Nat.le_refl _), hStacked⟩
  | starve hLenient hFew => exact hStacked
  | skip hLenient => exact hStacked
  | ignore hLenient hOuter => exact hStacked
  | await hWaits hBase => exact hStacked.await hBase
  | @apply op count hTake =>
      have hHeight := length_applyTop (s := s) hTake hStacked.1.start_le
      rcases hMeets op rfl with hIdle | hSame
      · exact ⟨Group.isOrdered_of_idle hIdle hHeight.le, hStacked.2⟩
      · rwa [← hSame] at hStacked
  | @complete w rest count hWaiting hTake =>
      obtain ⟨stack, ⟨start, waiting⟩, outer, notices⟩ := st
      obtain rfl : waiting = w :: rest := hWaiting
      have hBase := (hStacked.1.bounds w (List.mem_cons_self ..)).2
      exact hStacked.tail (length_applyTop hTake hBase).le
  | @drop w rest hLenient hWaiting hFew =>
      obtain ⟨stack, ⟨start, waiting⟩, outer, notices⟩ := st
      obtain rfl : waiting = w :: rest := hWaiting
      exact hStacked.tail (hStacked.1.bounds w (List.mem_cons_self ..)).2
  | leave hOuter hWaiting =>
      rw [hOuter] at hStacked
      exact hStacked.2.mono hStacked.1.start_le
  | abandon hLenient hOuter hWaiting =>
      rw [hOuter] at hStacked
      exact hStacked.2.mono hStacked.1.start_le

theorem Turn.isDisciplined (turn : Turn s st tokens next) (hDisciplined : st.IsDisciplined s) :
    next.IsDisciplined s where
  groups := turn.areStacked hDisciplined
  bottom := turn.1.start_eq.trans hDisciplined.bottom
  idle hBracketed := turn.1.waiting_eq_nil hBracketed (hDisciplined.idle hBracketed)

/-- An operation takes no more than what lies above a height, which is not below its group. -/
theorem touchesGroup_applyTop {op : Operation} {base count : Nat}
    (hTake : op.arity.take? (st.stack.length - base) = some count)
    (hBase : st.group.start ≤ base ∧ base ≤ st.stack.length)
    (hStack : next.stack = applyTop s op count st.stack) : st.TouchesGroup s next := by
  have hCount := (Arity.take?_eq_some hTake).2
  refine .inr (.inr ⟨op, st.stack.take count, st.stack.drop count,
    (List.take_append_drop ..).symm, hStack, ?_⟩)
  rw [List.length_drop]
  omega

theorem Move.touchesGroup (move : Move s st tokens next) (hDisciplined : st.IsDisciplined s) :
    st.TouchesGroup s next := by
  have hGroup := hDisciplined.groups.1
  cases move with
  | @push token f hLeaf =>
      refine .inr (.inl ⟨f, ?_, rfl⟩)
      rcases Token.leaf?_eq_some hLeaf with ⟨which, -, rfl⟩ | ⟨value, -, rfl⟩ <;> rfl
  | apply hTake => exact touchesGroup_applyTop hTake ⟨Nat.le_refl _, hGroup.start_le⟩ rfl
  | @complete w rest count hWaiting hTake =>
      exact touchesGroup_applyTop hTake (hGroup.bounds w (by simp [hWaiting])) rfl
  | _ => exact .inl rfl

theorem State.isDisciplined_initial (s : Settings) : State.initial.IsDisciplined s where
  groups := ⟨Group.isOrdered_of_idle rfl (Nat.le_refl _), trivial⟩
  bottom := rfl
  idle _ := State.idle_initial

theorem Passage.isDisciplined (passage : Passage s st tokens next)
    (hDisciplined : st.IsDisciplined s) : next.IsDisciplined s := by
  induction passage with
  | refl => exact hDisciplined
  | turn prior last ih => exact last.isDisciplined ih

/-! What the reader does in turns. -/

theorem meetWaiting_turn (hWaits : s.form.allowsWaiting = true) (op : Operation) :
    Turn s st [.operation op] (st.meetWaiting s op) := by
  refine ⟨meetWaiting_move hWaits op, fun _ _ => ?_⟩
  unfold State.meetWaiting
  split
  · next hWaiting _ => exact .inl hWaiting
  · next hWaiting _ => exact .inl hWaiting
  · exact .inr rfl

/-- A step that succeeds is a passage of turns that read its token. -/
theorem step_passage {token : Token} {next? : Option Token}
    (hIdle : s.form.allowsWaiting = false → st.Idle) (hStep : st.step s token next? = .ok next) :
    Passage s st [token] next := by
  by_cases hOperation : ∃ op, token = .operation op
  · obtain ⟨op, rfl⟩ := hOperation
    simp only [State.step] at hStep
    split_ifs at hStep with hWaits
    · obtain rfl := Except.ok.inj hStep
      exact .single (meetWaiting_turn hWaits op)
    · have hNone : st.group.waiting = [] :=
        hIdle (by simpa using hWaits) st.group (List.mem_cons_self ..)
      exact .single ⟨meetBracketed_move (Result.mapError_eq_ok.mp hStep), fun _ _ => .inl hNone⟩
  · refine (step_course hStep).passage fun op hOp => hOperation ⟨op, ?_⟩
    exact (List.mem_singleton.mp hOp).symm

theorem advance_passage {behind? : Option Token} (hDisciplined : st.IsDisciplined s)
    (hAdvance : st.advance s behind? tokens = .ok next) : Passage s st tokens next := by
  induction tokens generalizing st with
  | nil =>
      obtain rfl := Except.ok.inj hAdvance
      exact .refl st
  | cons token rest ih =>
      obtain ⟨mid, hStep, hLater⟩ := advance_cons_eq_ok.mp hAdvance
      have hFirst := step_passage hDisciplined.idle hStep
      exact hFirst.trans (ih (hFirst.isDisciplined hDisciplined) hLater)

/-! Where the reader is at rest, no operation that came last is left with all its operands. -/

theorem settle_takesMore (stack : List Formula) (waiting : List Waiting) :
    ∀ w ∈ (settle s stack waiting).2.head?,
      w.op.TakesMore ((settle s stack waiting).1.length - w.base) := by
  induction waiting generalizing stack with
  | nil => simp [settle]
  | cons w rest ih =>
      simp only [settle]
      cases hArity : w.op.arity with
      | variadic => simpa using Operation.takesMore_of_variadic hArity
      | exactly count =>
          by_cases hEnough : count ≤ stack.length - w.base
          · simpa only [if_pos hEnough] using ih _
          · simpa [hEnough] using Operation.takesMore_of_exactly hArity (not_le.mp hEnough)

theorem isSettled_settleGroup (st : State) : (st.settleGroup s).IsSettled :=
  settle_takesMore st.stack st.group.waiting

theorem State.isSettled_of_idle (hIdle : st.group.waiting = []) : st.IsSettled := by
  simp [IsSettled, hIdle]

theorem isSettled_meetWaiting (op : Operation) : (st.meetWaiting s op).IsSettled := by
  unfold State.meetWaiting
  split
  · next hWaiting _ => exact State.isSettled_of_idle hWaiting
  · next hFew =>
      simpa [State.IsSettled, State.await, State.available] using
        Operation.takesMore_of_take?_eq_none hFew
  · simpa [State.IsSettled, State.await] using
      Operation.takesMore_of_take?_eq_none op.take?_zero

theorem isSettled_closeWaiting (hSettled : st.IsSettled) (hClose : st.closeWaiting s = .ok next) :
    next.IsSettled := by
  simp only [State.closeWaiting] at hClose
  cases hOuter : st.outer with
  | nil =>
      rw [hOuter] at hClose
      obtain rfl := Except.ok.inj (Result.guard_eq_ok.mp hClose).2
      exact hSettled
  | cons parent outer =>
      rw [hOuter] at hClose
      obtain ⟨flushed, -, hClose⟩ := Result.bind_eq_ok.mp hClose
      obtain rfl := Except.ok.inj (Result.guard_eq_ok.mp hClose).2
      exact isSettled_settleGroup _

/-- Where operations may wait, every step comes to rest. -/
theorem isSettled_step {token : Token} {next? : Option Token} (hWaits : s.form.allowsWaiting = true)
    (hSettled : st.IsSettled) (hStep : st.step s token next? = .ok next) : next.IsSettled := by
  by_cases hBracket : token = .opener ∨ token = .closer
  · rcases (Settings.bracket_iff (s := s)).mp hBracket with rfl | rfl
    · rw [step_opens] at hStep
      obtain rfl := Except.ok.inj hStep
      exact State.isSettled_of_idle rfl
    · rw [step_closes, if_pos hWaits, Result.mapError_eq_ok] at hStep
      exact isSettled_closeWaiting hSettled hStep
  cases token with
  | opener => exact absurd (.inl rfl) hBracket
  | closer => exact absurd (.inr rfl) hBracket
  | coordinate which =>
      obtain rfl := Except.ok.inj hStep
      exact isSettled_settleGroup _
  | number value =>
      obtain rfl := Except.ok.inj hStep
      exact isSettled_settleGroup _
  | operation op =>
      simp only [State.step, if_pos hWaits] at hStep
      obtain rfl := Except.ok.inj hStep
      exact isSettled_meetWaiting op
  | oversized => simp [State.step] at hStep
  | unknown text =>
      obtain rfl := Except.ok.inj (Result.guard_eq_ok.mp hStep).2
      exact hSettled

theorem isSettled_advance {behind? : Option Token} (hWaits : s.form.allowsWaiting = true)
    (hSettled : st.IsSettled) (hAdvance : st.advance s behind? tokens = .ok next) :
    next.IsSettled := by
  induction tokens generalizing st with
  | nil =>
      obtain rfl := Except.ok.inj hAdvance
      exact hSettled
  | cons token rest ih =>
      obtain ⟨mid, hStep, hLater⟩ := advance_cons_eq_ok.mp hAdvance
      exact ih (isSettled_step hWaits hSettled hStep) hLater

/-! The end of a text. -/

/-- At the end of a text the groups that are open are ended one by one, from the innermost on. -/
inductive State.Ends (s : Settings) : State → State → Prop where
  | refl (st : State) : State.Ends s st st
  | group {st last : State} {parent : Group} {outer : List Group} {left : List Formula}
      {said : List Notice} (hLenient : s.strict = false) (hOuter : st.outer = parent :: outer)
      (hFlush : flush s st.stack st.notices st.group.waiting = .ok (left, said))
      (later : State.Ends s (State.settleGroup s ⟨left, parent, outer, said⟩) last) :
      State.Ends s st last

/-- Ending a group is a passage. -/
theorem State.Ends.passage (ends : st.Ends s last) : Passage s st [] last := by
  induction ends with
  | refl st => exact .refl st
  | @group st last parent outer left said hLenient hOuter hFlush later ih =>
      have hAbandon : Move s ⟨left, ⟨st.group.start, []⟩, st.outer, said⟩ []
          ⟨left, parent, outer, said⟩ := .abandon hLenient hOuter rfl
      have hCourse := (flush_course hFlush).trans (.silent hAbandon (settleGroup_course _))
      exact (hCourse.passage (by simp)).trans ih

theorem State.Ends.isSettled (ends : st.Ends s last) (hSettled : st.IsSettled) :
    last.IsSettled := by
  induction ends with
  | refl st => exact hSettled
  | group hLenient hOuter hFlush later ih => exact ih (isSettled_settleGroup _)

/-- The end of a text comes to the outermost group and ends that as well. -/
theorem finishGroups_ends {stack left : List Formula} {notices said : List Notice} {group : Group}
    {outer : List Group} (hLenient : outer ≠ [] → s.strict = false)
    (hFinish : finishGroups s stack notices group outer = .ok (left, said)) :
    ∃ last, State.Ends s ⟨stack, group, outer, notices⟩ last ∧ last.outer = [] ∧
      flush s last.stack last.notices last.group.waiting = .ok (left, said) := by
  induction outer generalizing stack notices group with
  | nil => exact ⟨_, .refl _, rfl, hFinish⟩
  | cons parent outer ih =>
      obtain ⟨⟨flushed, noted⟩, hFlush, hLater⟩ := Result.bind_eq_ok.mp hFinish
      have hRepairs : s.strict = false := hLenient (by simp)
      obtain ⟨last, hEnds, hLast⟩ := ih (fun _ => hRepairs) hLater
      exact ⟨last, .group hRepairs rfl hFlush hEnds, hLast⟩

theorem finish_ends {left : List Formula} {said : List Notice}
    (hFinish : st.finish s = .ok (left, said)) :
    ∃ last, st.Ends s last ∧ last.outer = [] ∧
      flush s last.stack last.notices last.group.waiting = .ok (left, said) := by
  obtain ⟨hOpen, hFinish⟩ := Result.guard_eq_ok.mp hFinish
  obtain ⟨⟨flushed, noted⟩, hGroups, hEnd⟩ := Result.bind_eq_ok.mp hFinish
  obtain ⟨rfl, rfl⟩ := Prod.mk.inj (Except.ok.inj (Result.guard_eq_ok.mp hEnd).2)
  refine finishGroups_ends (fun hOuter => ?_) hGroups
  simpa [hOuter] using hOpen

theorem passage_of_reaches (hReaches : s.Reaches tokens st) :
    ∃ passed, Passage s .initial passed st := by
  obtain ⟨passed, left, -, hAdvance⟩ := hReaches
  exact ⟨passed, advance_passage (State.isDisciplined_initial s) hAdvance⟩

theorem isSettled_of_reaches (hReaches : s.Reaches tokens st) : st.IsSettled := by
  by_cases hWaits : s.form.allowsWaiting = true
  · obtain ⟨passed, left, -, hAdvance⟩ := hReaches
    exact isSettled_advance hWaits (State.isSettled_of_idle rfl) hAdvance
  · obtain ⟨passed, hPassage⟩ := passage_of_reaches hReaches
    have hIdle := (hPassage.isDisciplined (State.isDisciplined_initial s)).idle (by simpa using hWaits)
    exact State.isSettled_of_idle (hIdle st.group (List.mem_cons_self ..))

/-- Whatever the pieces of a text are, before each token and, at its end, before each group that is
still open is ended, the groups are in order, and the operation that waits last lacks operands. From
there on the reader moves in turns: at the next token, at the end of its group, even if that refuses
an operation, and at the end of the text. After each turn the groups are in order, and no turn takes
anything off the stack that lies below the current group. -/
theorem read_pieces_disciplined {s : Settings} {pieces : List String} {reached st : State}
    (hReaches : s.Reaches (pieces.map Token.ofText) reached) (hEnds : reached.Ends s st) :
    (st.IsDisciplined s ∧ st.IsSettled) ∧
      (∀ token next? next, st.step s token next? = .ok next → Passage s st [token] next) ∧
      (∀ newer older left said, st.group.waiting = newer ++ older →
        flush s st.stack st.notices newer = .ok (left, said) →
          Passage s st [] ⟨left, ⟨st.group.start, older⟩, st.outer, said⟩) ∧
      (∀ left said, st.finish s = .ok (left, said) → ∃ last, st.Ends s last ∧ last.outer = [] ∧
        flush s last.stack last.notices last.group.waiting = .ok (left, said)) ∧
      ∀ tokens mid, Passage s st tokens mid → mid.IsDisciplined s ∧
        ∀ more next, Turn s mid more next → mid.TouchesGroup s next := by
  obtain ⟨passed, hPassage⟩ := passage_of_reaches hReaches
  have hDisciplined : st.IsDisciplined s :=
    (hPassage.trans hEnds.passage).isDisciplined (State.isDisciplined_initial s)
  refine ⟨⟨hDisciplined, hEnds.isSettled (isSettled_of_reaches hReaches)⟩,
    fun token next? next => step_passage hDisciplined.idle, ?_, fun left said => finish_ends, ?_⟩
  · intro newer older left said hWaiting hFlush
    obtain ⟨stack, ⟨start, waiting⟩, outer, notices⟩ := st
    obtain rfl : waiting = newer ++ older := hWaiting
    exact (flush_front_course older hFlush).passage (by simp)
  · intro tokens mid hLater
    have hMid := hLater.isDisciplined hDisciplined
    exact ⟨hMid, fun more next turn => turn.1.touchesGroup hMid⟩

/-- Three groups are open where this text ends, and operations wait in each of them. The end drops
the innermost operation first, which lacks its operand. -/
theorem read_pieces_disciplined_mean :
    let s : Settings := ⟨.infixed, false⟩
    let pieces := ["1", "+", "(", "arithMean", "2", "3", "*", "(", "negate"]
    let stack : List Formula := [.constant (.integer 3), .constant (.integer 2),
      .constant (.integer 1)]
    let mean : Group := ⟨1, [⟨.mul, 3⟩, ⟨.arithMean, 1⟩]⟩
    let sum : Group := ⟨0, [⟨.add, 0⟩]⟩
    let reached : State := ⟨stack, ⟨3, [⟨.negate, 3⟩]⟩, [mean, sum], []⟩
    let st : State := ⟨stack, mean, [sum], [.dropped .negate]⟩
    (s.Reaches (pieces.map Token.ofText) reached ∧ reached.Ends s st) ∧
      (st.IsDisciplined s ∧ st.IsSettled) ∧
      (∀ token next? next, st.step s token next? = .ok next → Passage s st [token] next) ∧
      (∀ newer older left said, st.group.waiting = newer ++ older →
        flush s st.stack st.notices newer = .ok (left, said) →
          Passage s st [] ⟨left, ⟨st.group.start, older⟩, st.outer, said⟩) ∧
      (∀ left said, st.finish s = .ok (left, said) → ∃ last, st.Ends s last ∧ last.outer = [] ∧
        flush s last.stack last.notices last.group.waiting = .ok (left, said)) ∧
      ∀ tokens mid, Passage s st tokens mid → mid.IsDisciplined s ∧
        ∀ more next, Turn s mid more next → mid.TouchesGroup s next := by
  intro s pieces stack mean sum reached st
  have hReaches : s.Reaches (pieces.map Token.ofText) reached :=
    ⟨pieces.map Token.ofText, [], by decide, rfl⟩
  have hEnds : reached.Ends s st := .group rfl rfl rfl (.refl _)
  exact ⟨⟨hReaches, hEnds⟩, read_pieces_disciplined hReaches hEnds⟩

end Formulas.Reading

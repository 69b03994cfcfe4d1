import Formulas.Proofs.Reading.Steps

/-! The moves that reading is made of. A token moves the reader once, and then operations
that wait may be applied or dropped, one by one. What each move keeps, reading keeps, at
every moment and not only between tokens. -/
namespace Formulas.Reading

/-- One move, with the tokens that are read by it, which are one or none. -/
inductive Move (s : Settings) : State → List Token → State → Prop where
  | push {st : State} {token : Token} {f : Formula} (hLeaf : token.leaf? = some f) :
      Move s st [token] { st with stack := f :: st.stack }
  | enter {st : State} : Move s st [s.opener] st.openGroup
  | apply {st : State} {op : Operation} {count : Nat}
      (hTake : op.arity.take? st.available = some count) :
      Move s st [.operation op] { st with stack := applyTop s op count st.stack }
  | await {st : State} {op : Operation} {base : Nat} (hWaits : s.form.allowsWaiting = true)
      (hBase : base = if st.group.waiting = [] then st.group.start else st.stack.length) :
      Move s st [.operation op] (st.await op base)
  | starve {st : State} {op : Operation} (hLenient : s.strict = false)
      (hFew : op.arity.take? st.available = none) :
      Move s st [.operation op] (st.note (.starved op))
  | skip {st : State} {text : String} (hLenient : s.strict = false) :
      Move s st [.unknown text] (st.note (.unknownToken text))
  | ignore {st : State} (hLenient : s.strict = false) (hOuter : st.outer = []) :
      Move s st [s.closer] st
  | complete {st : State} {w : Waiting} {rest : List Waiting} {count : Nat}
      (hWaiting : st.group.waiting = w :: rest)
      (hTake : w.op.arity.take? (st.stack.length - w.base) = some count) :
      Move s st [] { st with
        stack := applyTop s w.op count st.stack
        group := { st.group with waiting := rest } }
  | drop {st : State} {w : Waiting} {rest : List Waiting} (hLenient : s.strict = false)
      (hWaiting : st.group.waiting = w :: rest)
      (hFew : w.op.arity.take? (st.stack.length - w.base) = none) :
      Move s st [] { st with
        group := { st.group with waiting := rest }
        notices := .dropped w.op :: st.notices }
  | leave {st : State} {parent : Group} {outer : List Group}
      (hOuter : st.outer = parent :: outer)
      (hWaiting : s.form.allowsWaiting = true → st.group.waiting = []) :
      Move s st [s.closer] { st with group := parent, outer := outer }
  | abandon {st : State} {parent : Group} {outer : List Group} (hLenient : s.strict = false)
      (hOuter : st.outer = parent :: outer) (hWaiting : st.group.waiting = []) :
      Move s st [] { st with group := parent, outer := outer }

/-- Moves one after another, with all tokens that are read by them. -/
inductive Course (s : Settings) : State → List Token → State → Prop where
  | refl (st : State) : Course s st [] st
  | move {st mid next : State} {tokens more : List Token} (prior : Course s st tokens mid)
      (last : Move s mid more next) : Course s st (tokens ++ more) next

namespace Course

variable {s : Settings} {st mid next : State} {tokens more : List Token}

theorem single (last : Move s st tokens next) : Course s st tokens next :=
  .move (.refl st) last

theorem trans (first : Course s st tokens mid) (second : Course s mid more next) :
    Course s st (tokens ++ more) next := by
  induction second with
  | refl => simpa using first
  | move prior last ih => simpa using Course.move ih last

/-- Moves that read nothing, behind a move. -/
theorem silent (first : Move s st tokens mid) (second : Course s mid [] next) :
    Course s st tokens next := by
  simpa using (single first).trans second

end Course

variable {s : Settings} {st next : State} {stack left : List Formula} {group parent : Group}
  {outer : List Group} {notices said : List Notice}

theorem settle_course (stack : List Formula) (start : Nat) (waiting : List Waiting)
    (outer : List Group) (notices : List Notice) :
    Course s ⟨stack, ⟨start, waiting⟩, outer, notices⟩ []
      ⟨(settle s stack waiting).1, ⟨start, (settle s stack waiting).2⟩, outer, notices⟩ := by
  induction waiting generalizing stack with
  | nil => exact .refl _
  | cons w rest ih =>
      simp only [settle]
      cases hArity : w.op.arity with
      | variadic => exact .refl _
      | exactly count =>
          by_cases hEnough : count ≤ stack.length - w.base
          · have hTake : w.op.arity.take? (stack.length - w.base) = some count := by
              simp [hArity, Arity.take?, hEnough]
            simpa [hEnough] using Course.silent (.complete rfl hTake) (ih _)
          · simpa [hEnough] using Course.refl _

theorem settleGroup_course (st : State) : Course s st [] (st.settleGroup s) :=
  settle_course st.stack st.group.start st.group.waiting st.outer st.notices

/-- The end of a group deals with the operations that came last in front of the older ones. -/
theorem flush_front_course {start : Nat} {newer : List Waiting} (older : List Waiting)
    (hFlush : flush s stack notices newer = .ok (left, said)) :
    Course s ⟨stack, ⟨start, newer ++ older⟩, outer, notices⟩ []
      ⟨left, ⟨start, older⟩, outer, said⟩ := by
  induction newer generalizing stack notices with
  | nil =>
      obtain ⟨rfl, rfl⟩ := Prod.mk.inj (Except.ok.inj hFlush)
      exact .refl _
  | cons w rest ih =>
      simp only [flush] at hFlush
      cases hTake : w.op.arity.take? (stack.length - w.base) with
      | some count =>
          rw [hTake] at hFlush
          exact .silent (.complete rfl hTake) (ih hFlush)
      | none =>
          rw [hTake] at hFlush
          obtain ⟨hStrict, hFlush⟩ := Result.guard_eq_ok.mp hFlush
          exact .silent (.drop (by simpa using hStrict) rfl hTake) (ih hFlush)

theorem flush_course {start : Nat} {waiting : List Waiting}
    (hFlush : flush s stack notices waiting = .ok (left, said)) :
    Course s ⟨stack, ⟨start, waiting⟩, outer, notices⟩ [] ⟨left, ⟨start, []⟩, outer, said⟩ := by
  simpa using flush_front_course [] hFlush

theorem push_course {token : Token} {f : Formula} (hLeaf : token.leaf? = some f) :
    Course s st [token] (st.push s f) :=
  .silent (.push hLeaf) (settleGroup_course _)

theorem meetWaiting_move (hWaits : s.form.allowsWaiting = true) (op : Operation) :
    Move s st [.operation op] (st.meetWaiting s op) := by
  unfold State.meetWaiting
  split
  · next hTake => exact .apply hTake
  · next hWaiting _ => exact .await hWaits (by simp [hWaiting])
  · next hWaiting => exact .await hWaits (by simp [hWaiting])

theorem meetBracketed_move {op : Operation} {next? : Option Token}
    (hMeet : st.meetBracketed s op next? = .ok next) : Move s st [.operation op] next := by
  obtain ⟨-, hMeet⟩ := Result.guard_eq_ok.mp hMeet
  cases hTake : op.arity.take? st.available with
  | some count =>
      rw [hTake] at hMeet
      obtain rfl := Except.ok.inj hMeet
      exact .apply hTake
  | none =>
      rw [hTake] at hMeet
      obtain ⟨hStrict, hMeet⟩ := Result.guard_eq_ok.mp hMeet
      obtain rfl := Except.ok.inj hMeet
      exact .starve (by simpa using hStrict) hTake

theorem closeWaiting_course (hClose : st.closeWaiting s = .ok next) :
    Course s st [s.closer] next := by
  simp only [State.closeWaiting] at hClose
  cases hOuter : st.outer with
  | nil =>
      rw [hOuter] at hClose
      obtain ⟨hStrict, hClose⟩ := Result.guard_eq_ok.mp hClose
      obtain rfl := Except.ok.inj hClose
      exact .single (.ignore (by simpa using hStrict) hOuter)
  | cons parent outer =>
      rw [hOuter] at hClose
      obtain ⟨⟨left, said⟩, hFlush, hClose⟩ := Result.bind_eq_ok.mp hClose
      obtain ⟨-, hClose⟩ := Result.guard_eq_ok.mp hClose
      obtain rfl := Except.ok.inj hClose
      have hLeave : Move s ⟨left, ⟨st.group.start, []⟩, st.outer, said⟩ [s.closer]
          ⟨left, parent, outer, said⟩ := .leave hOuter fun _ => rfl
      exact (flush_course hFlush).trans (.silent hLeave (settleGroup_course _))

theorem closeBracketed_course (hBracketed : s.form.allowsWaiting = false) {next? : Option Token}
    (hClose : st.closeBracketed s next? = .ok next) : Course s st [s.closer] next := by
  obtain ⟨-, hClose⟩ := Result.guard_eq_ok.mp hClose
  obtain ⟨-, hClose⟩ := Result.guard_eq_ok.mp hClose
  cases hOuter : st.outer with
  | nil =>
      rw [hOuter] at hClose
      obtain ⟨hStrict, hClose⟩ := Result.guard_eq_ok.mp hClose
      obtain rfl := Except.ok.inj hClose
      exact .single (.ignore (by simpa using hStrict) hOuter)
  | cons parent outer =>
      rw [hOuter] at hClose
      obtain rfl := Except.ok.inj hClose
      exact .single (.leave hOuter (by simp [hBracketed]))

theorem bracket_course {token : Token} (hBracket : token = .opener ∨ token = .closer)
    {next? : Option Token} (hStep : st.step s token next? = .ok next) :
    Course s st [token] next := by
  rcases (Settings.bracket_iff (s := s)).mp hBracket with rfl | rfl
  · rw [step_opens] at hStep
    obtain rfl := Except.ok.inj hStep
    exact .single .enter
  · rw [step_closes, Result.mapError_eq_ok] at hStep
    split_ifs at hStep with hWaits
    · exact closeWaiting_course hStep
    · exact closeBracketed_course (by simpa using hWaits) hStep

/-- A step that succeeds is a course of moves that read its token. -/
theorem step_course {token : Token} {next? : Option Token}
    (hStep : st.step s token next? = .ok next) : Course s st [token] next := by
  cases token with
  | opener => exact bracket_course (.inl rfl) hStep
  | closer => exact bracket_course (.inr rfl) hStep
  | coordinate which =>
      obtain rfl := Except.ok.inj hStep
      exact push_course rfl
  | number value =>
      obtain rfl := Except.ok.inj hStep
      exact push_course rfl
  | operation op =>
      simp only [State.step] at hStep
      split_ifs at hStep with hWaits
      · obtain rfl := Except.ok.inj hStep
        exact .single (meetWaiting_move hWaits op)
      · exact .single (meetBracketed_move (Result.mapError_eq_ok.mp hStep))
  | oversized => simp [State.step] at hStep
  | unknown text =>
      obtain ⟨hStrict, hStep⟩ := Result.guard_eq_ok.mp hStep
      obtain rfl := Except.ok.inj hStep
      exact .single (.skip (by simpa using hStrict))

/-- The groups that are open at the end of a text are left without a bracket. -/
theorem finishGroups_course (hLenient : outer ≠ [] → s.strict = false)
    (hFinish : finishGroups s stack notices group outer = .ok (left, said)) :
    ∃ start, Course s ⟨stack, group, outer, notices⟩ [] ⟨left, ⟨start, []⟩, [], said⟩ := by
  induction outer generalizing stack notices group with
  | nil => exact ⟨_, flush_course hFinish⟩
  | cons parent outer ih =>
      obtain ⟨⟨flushed, noted⟩, hFlush, hLater⟩ := Result.bind_eq_ok.mp hFinish
      have hRepairs : s.strict = false := hLenient (by simp)
      obtain ⟨start, hCourse⟩ := ih (fun _ => hRepairs) hLater
      have hAbandon : Move s ⟨flushed, ⟨group.start, []⟩, parent :: outer, noted⟩ []
          ⟨flushed, parent, outer, noted⟩ := .abandon hRepairs rfl rfl
      have hSettle := settle_course (s := s) flushed parent.start parent.waiting outer noted
      exact ⟨start, (flush_course hFlush).trans (.silent hAbandon (hSettle.trans hCourse))⟩

theorem finish_course (hFinish : st.finish s = .ok (left, said)) :
    ∃ start, Course s st [] ⟨left, ⟨start, []⟩, [], said⟩ := by
  obtain ⟨hOpen, hFinish⟩ := Result.guard_eq_ok.mp hFinish
  obtain ⟨⟨flushed, noted⟩, hGroups, hEnd⟩ := Result.bind_eq_ok.mp hFinish
  obtain ⟨rfl, rfl⟩ := Prod.mk.inj (Except.ok.inj (Result.guard_eq_ok.mp hEnd).2)
  refine finishGroups_course (fun hOuter => ?_) hGroups
  simpa [hOuter] using hOpen

/-! Facts about the groups at all times. -/

variable {tokens : List Token}

/-- Where operations cannot wait, none does. -/
theorem Move.waiting_eq_nil (move : Move s st tokens next)
    (hBracketed : s.form.allowsWaiting = false)
    (hNone : ∀ g ∈ st.group :: st.outer, g.waiting = []) :
    ∀ g ∈ next.group :: next.outer, g.waiting = [] := by
  cases move with
  | push hLeaf => exact hNone
  | apply hTake => exact hNone
  | starve hLenient hFew => exact hNone
  | skip hLenient => exact hNone
  | ignore hLenient hOuter => exact hNone
  | enter =>
      intro g hg
      rcases List.mem_cons.mp hg with rfl | hg
      · rfl
      · exact hNone g hg
  | await hWaits hBase => simp [hBracketed] at hWaits
  | complete hWaiting hTake => simp [hNone] at hWaiting
  | drop hLenient hWaiting hFew => simp [hNone] at hWaiting
  | leave hOuter hWaiting =>
      rw [hOuter] at hNone
      exact fun g hg => hNone g (List.mem_cons_of_mem _ hg)
  | abandon hLenient hOuter hWaiting =>
      rw [hOuter] at hNone
      exact fun g hg => hNone g (List.mem_cons_of_mem _ hg)

/-- No operation waits in any group. -/
def State.Idle (st : State) : Prop :=
  ∀ g ∈ st.group :: st.outer, g.waiting = []

theorem State.idle_initial : State.initial.Idle := by
  simp [State.Idle, State.initial]

theorem Course.idle (course : Course s st tokens next) (hBracketed : s.form.allowsWaiting = false)
    (hIdle : st.Idle) : next.Idle := by
  induction course with
  | refl => exact hIdle
  | move prior last ih => exact last.waiting_eq_nil hBracketed ih

theorem Course.waiting_eq_nil (course : Course s .initial tokens st)
    (hBracketed : s.form.allowsWaiting = false) :
    ∀ g ∈ st.group :: st.outer, g.waiting = [] :=
  course.idle hBracketed State.idle_initial

/-- What has been noted stays noted. -/
theorem Move.notices_suffix (move : Move s st tokens next) : st.notices <:+ next.notices := by
  cases move with
  | starve hLenient hFew => exact List.suffix_cons ..
  | skip hLenient => exact List.suffix_cons ..
  | drop hLenient hWaiting hFew => exact List.suffix_cons ..
  | _ => exact List.suffix_rfl

theorem Course.notices_suffix (course : Course s st tokens next) :
    st.notices <:+ next.notices := by
  induction course with
  | refl => exact List.suffix_rfl
  | move prior last ih => exact ih.trans last.notices_suffix

/-- The outermost group keeps its start. -/
theorem Move.start_eq (move : Move s st tokens next) :
    (next.outer.map Group.start).getLastD next.group.start =
      (st.outer.map Group.start).getLastD st.group.start := by
  cases move with
  | enter => simp only [State.openGroup, List.map_cons, List.getLastD_cons]
  | leave hOuter hWaiting => simp only [hOuter, List.map_cons, List.getLastD_cons]
  | abandon hLenient hOuter hWaiting => simp only [hOuter, List.map_cons, List.getLastD_cons]
  | _ => rfl

theorem Course.start_eq (course : Course s st tokens next) :
    (next.outer.map Group.start).getLastD next.group.start =
      (st.outer.map Group.start).getLastD st.group.start := by
  induction course with
  | refl => rfl
  | move prior last ih => exact last.start_eq.trans ih

end Formulas.Reading

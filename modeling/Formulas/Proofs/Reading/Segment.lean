import Formulas.Proofs.Formula.Spelling
import Formulas.Proofs.Operation
import Formulas.Proofs.Reading.Steps

/-! The language of strict reading with operations after their operands. Its grammar has
two rules more than the bracketed form has: a pair of brackets may be empty where an
operation lies on top of the stack, and an operation may leave operands of its group
behind, for the operation of a group around it. -/
namespace Formulas.Reading

/-- The last formula is an operation; without formulas, the given one was. -/
def endsInOperation (top : Bool) (formulas : List Formula) : Bool :=
  match formulas.getLast? with
  | none => top
  | some f => f.isOperation

/-- The formulas of a group once an operation has taken the last ones as its operands. -/
def gathered (op : Operation) (taken : Nat) (parts : List Formula) : List Formula :=
  parts.take (parts.length - taken) ++ [.operation op (parts.drop (parts.length - taken))]

theorem topIsOperation_reverse_append (st : State) (formulas : List Formula) :
    ({ st with stack := formulas.reverse ++ st.stack } : State).topIsOperation =
      endsInOperation st.topIsOperation formulas := by
  rcases List.eq_nil_or_concat formulas with rfl | ⟨front, f, rfl⟩
  · rfl
  · simp [State.topIsOperation, endsInOperation]

/-- Tokens that strict reading passes over within one group, and the formulas that they
leave on the stack, first one lowest. `top` tells whether an operation lay on top before. -/
inductive Segment : Bool → List Token → List Formula → Prop where
  | nil (top : Bool) : Segment top [] []
  | append {top : Bool} {left right : List Token} {first second : List Formula}
      (before : Segment top left first)
      (after : Segment (endsInOperation top first) right second) :
      Segment top (left ++ right) (first ++ second)
  | leaf {top : Bool} {token : Token} {f : Formula} (hLeaf : token.leaf? = some f) :
      Segment top [token] [f]
  | hollow : Segment true [.opener, .closer] []
  | group {top : Bool} {within : List Token} {parts : List Formula} {op : Operation}
      {taken : Nat} (body : Segment top within parts)
      (hTake : op.arity.take? parts.length = some taken) :
      Segment top (.opener :: (within ++ [.operation op, .closer])) (gathered op taken parts)

/-- An operation applied on top of the formulas of its group. -/
theorem applyTop_group (op : Operation) {taken : Nat} {parts : List Formula}
    (hTaken : taken ≤ parts.length) (below : List Formula) (strict : Bool) :
    applyTop ⟨.postfixed, strict⟩ op taken (parts.reverse ++ below) =
      (gathered op taken parts).reverse ++ below := by
  have hTake : (parts.reverse ++ below).take taken = parts.reverse.take taken :=
    List.take_append_of_le_length (by simpa using hTaken)
  have hDrop : (parts.reverse ++ below).drop taken = parts.reverse.drop taken ++ below :=
    List.drop_append_of_le_length (by simpa using hTaken)
  rw [applyTop, hTake, hDrop, List.take_reverse, List.drop_reverse]
  simp [gathered, Settings.arrange, Settings.isBackward]

namespace Segment

variable {top : Bool} {tokens : List Token} {formulas : List Formula}

/-- Formulas that come from a text are well formed. -/
theorem isWellFormed (segment : Segment top tokens formulas) :
    ∀ f ∈ formulas, f.isWellFormed = true := by
  induction segment with
  | nil top => simp
  | append before after ihBefore ihAfter =>
      intro f hf
      rcases List.mem_append.mp hf with hf | hf
      · exact ihBefore f hf
      · exact ihAfter f hf
  | @leaf top token f hLeaf =>
      rcases Token.leaf?_eq_some hLeaf with ⟨which, -, rfl⟩ | ⟨value, -, rfl⟩ <;>
        simp [Formula.isWellFormed]
  | hollow => simp
  | @group top within parts op taken body hTake ih =>
      obtain ⟨hAdmits, hTaken⟩ := Arity.take?_eq_some hTake
      intro f hf
      rcases List.mem_append.mp hf with hf | hf
      · exact ih f (List.mem_of_mem_take hf)
      · obtain rfl := List.mem_singleton.mp hf
        rw [Formula.isWellFormed_operation]
        constructor
        · rw [List.length_drop, Nat.sub_sub_self hTaken]
          exact hAdmits
        · intro part hPart
          exact ih part (List.mem_of_mem_drop hPart)

/-- No segment starts with a closing bracket. -/
theorem head?_ne_closer (segment : Segment top tokens formulas) :
    tokens.head? ≠ some .closer := by
  induction segment with
  | nil top => simp
  | append before after ihBefore ihAfter =>
      rw [List.head?_append]
      intro hHead
      rcases Option.or_eq_some_iff.mp hHead with hHead | ⟨-, hHead⟩
      · exact ihBefore hHead
      · exact ihAfter hHead
  | @leaf top token f hLeaf =>
      rcases Token.leaf?_eq_some hLeaf with ⟨which, rfl, -⟩ | ⟨value, rfl, -⟩ <;> simp
  | hollow => simp
  | group body hTake ih => simp

/-- Strict reading passes over a segment from any state without waiting operations. -/
theorem run_append {count : Nat} (segment : Segment top tokens formulas) (st : State)
    (hTop : st.topIsOperation = top) (hWaiting : st.group.waiting = []) (rest : List Token)
    (hRest : rest.head? ≠ some .closer) :
    run ⟨.postfixed, true⟩ count st (tokens ++ rest) =
      run ⟨.postfixed, true⟩ count { st with stack := formulas.reverse ++ st.stack } rest := by
  induction segment generalizing st rest with
  | nil top => rfl
  | @append top left right first second before after ihBefore ihAfter =>
      have hRight : (right ++ rest).head? ≠ some .closer := by
        rw [List.head?_append]
        intro hHead
        rcases Option.or_eq_some_iff.mp hHead with hHead | ⟨-, hHead⟩
        · exact after.head?_ne_closer hHead
        · exact hRest hHead
      have hMiddle : ({ st with stack := first.reverse ++ st.stack } : State).topIsOperation =
          endsInOperation top first := by
        rw [← hTop]
        exact topIsOperation_reverse_append st first
      rw [List.append_assoc, ihBefore st hTop hWaiting _ hRight,
        ihAfter { st with stack := first.reverse ++ st.stack } hMiddle hWaiting rest hRest]
      simp
  | @leaf top token f hLeaf =>
      rw [List.singleton_append, run_of_step (step_leaf hLeaf _), push_of_waiting_nil hWaiting]
      rfl
  | hollow =>
      have hOpen : st.step ⟨.postfixed, true⟩ .opener ([Token.closer] ++ rest).head? =
          .ok st.openGroup := step_opener rfl _
      have hClose : st.openGroup.step ⟨.postfixed, true⟩ .closer rest.head? = .ok st :=
        strict_step_closer.mpr ⟨hTop, hRest, st.group, st.outer, rfl, rfl⟩
      exact (run_of_step hOpen).trans (run_of_step hClose)
  | @group top within parts op taken body hTake ih =>
      have hTaken := (Arity.take?_eq_some hTake).2
      let inner : State := { st.openGroup with stack := parts.reverse ++ st.stack }
      let applied : State :=
        { inner with stack := (gathered op taken parts).reverse ++ st.stack }
      have hOpen (next? : Option Token) : st.step ⟨.postfixed, true⟩ .opener next? =
          .ok st.openGroup := step_opener rfl next?
      have hBody := ih st.openGroup hTop rfl (.operation op :: .closer :: rest) (by simp)
      have hAvailable : inner.available = parts.length := by
        simp [inner, State.available, State.openGroup]
      have hApply : inner.step ⟨.postfixed, true⟩ (.operation op) (some .closer) = .ok applied :=
        strict_step_operation.mpr ⟨rfl, taken, by rw [hAvailable]; exact hTake, by
          simp only [applied, inner, applyTop_group op hTaken]⟩
      have hApplied : applied.topIsOperation = true := by
        simp [applied, State.topIsOperation, gathered, Formula.isOperation]
      have hClose : applied.step ⟨.postfixed, true⟩ .closer rest.head? =
          .ok { st with stack := (gathered op taken parts).reverse ++ st.stack } :=
        strict_step_closer.mpr ⟨hApplied, hRest, st.group, st.outer, rfl, rfl⟩
      calc run ⟨.postfixed, true⟩ count st
              (.opener :: (within ++ [.operation op, .closer]) ++ rest)
          = run ⟨.postfixed, true⟩ count st.openGroup
              (within ++ .operation op :: .closer :: rest) := by
            rw [List.cons_append, run_of_step (hOpen _), List.append_assoc]
            rfl
        _ = run ⟨.postfixed, true⟩ count inner (.operation op :: .closer :: rest) := hBody
        _ = run ⟨.postfixed, true⟩ count applied (.closer :: rest) := run_of_step hApply
        _ = _ := run_of_step hClose

end Segment

theorem Segment.flatten {operands : List Formula} (top : Bool)
    (hOperands : ∀ f ∈ operands, ∀ top, Segment top (f.tokens .postfixed) [f]) :
    Segment top (operands.map (Formula.tokens .postfixed)).flatten operands := by
  induction operands generalizing top with
  | nil => exact .nil top
  | cons f operands ih =>
      have hFirst := hOperands f (List.mem_cons_self ..) top
      exact hFirst.append (ih _ fun g hg => hOperands g (List.mem_cons_of_mem f hg))

/-- The tokens of a well-formed formula are a segment that comes to the formula. -/
theorem segment_tokens {f : Formula} (hWellFormed : f.isWellFormed = true) (top : Bool) :
    Segment top (f.tokens .postfixed) [f] := by
  induction f generalizing top with
  | constant value => exact .leaf rfl
  | coordinate which => exact .leaf rfl
  | operation op operands ih =>
      obtain ⟨hAdmits, hOperands⟩ := Formula.isWellFormed_operation.mp hWellFormed
      have hBody := Segment.flatten top fun f hf top => ih f hf (hOperands f hf) top
      have hGroup := Segment.group hBody (Arity.take?_of_admits hAdmits)
      rw [Formula.tokens_operation]
      simpa [Formula.operationSymbols, Alphabet.tokens, gathered] using hGroup

/-- The states of strict reading between two pieces of a segment, with the tokens read. -/
inductive Reached : List Token → State → Prop where
  | outside {tokens : List Token} {formulas : List Formula}
      (segment : Segment false tokens formulas) (notices : List Notice) :
      Reached tokens ⟨formulas.reverse, ⟨0, []⟩, [], notices⟩
  | inside {tokens within : List Token} {st : State} {parts : List Formula}
      (around : Reached tokens st) (body : Segment st.topIsOperation within parts) :
      Reached (tokens ++ .opener :: within)
        { st.openGroup with stack := parts.reverse ++ st.stack }

namespace Reached

variable {tokens : List Token} {st : State}

theorem waiting (reached : Reached tokens st) : st.group.waiting = [] := by
  cases reached <;> rfl

/-- Another segment in the same group. -/
theorem append (reached : Reached tokens st) {more : List Token} {formulas : List Formula}
    (segment : Segment st.topIsOperation more formulas) :
    Reached (tokens ++ more) { st with stack := formulas.reverse ++ st.stack } := by
  cases reached with
  | @outside tokens first segment₀ notices =>
      have hTop : (State.mk first.reverse ⟨0, []⟩ [] notices).topIsOperation =
          endsInOperation false first := by
        rw [← List.append_nil first.reverse]
        exact topIsOperation_reverse_append ⟨[], ⟨0, []⟩, [], notices⟩ first
      rw [hTop] at segment
      simpa using Reached.outside (segment₀.append segment) notices
  | @inside tokens within st parts around body =>
      have hTop :
          ({ st.openGroup with stack := parts.reverse ++ st.stack } : State).topIsOperation =
            endsInOperation st.topIsOperation parts :=
        topIsOperation_reverse_append st.openGroup parts
      rw [hTop] at segment
      simpa using Reached.inside around (body.append segment)

theorem leaf (reached : Reached tokens st) {token : Token} {f : Formula}
    (hLeaf : token.leaf? = some f) :
    Reached (tokens ++ [token]) (st.push ⟨.postfixed, true⟩ f) := by
  rw [push_of_waiting_nil reached.waiting]
  exact reached.append (.leaf hLeaf)

theorem topIsOperation_push (reached : Reached tokens st) {f : Formula}
    (hLeaf : f.isOperation = false) :
    (st.push ⟨.postfixed, true⟩ f).topIsOperation = false := by
  rw [push_of_waiting_nil reached.waiting]
  exact hLeaf

/-- An operation and the closing bracket behind it complete a group. -/
theorem close (reached : Reached tokens st) {op : Operation} {taken : Nat}
    (hTake : op.arity.take? st.available = some taken) {parent : Group} {outer : List Group}
    (hOuter : st.outer = parent :: outer) :
    Reached (tokens ++ [.operation op, .closer])
      ⟨applyTop ⟨.postfixed, true⟩ op taken st.stack, parent, outer, st.notices⟩ := by
  cases reached with
  | outside segment notices => simp at hOuter
  | @inside tokens within st parts around body =>
      obtain ⟨rfl, rfl⟩ := List.cons.inj hOuter
      have hAvailable :
          ({ st.openGroup with stack := parts.reverse ++ st.stack } : State).available =
            parts.length := by
        simp [State.available, State.openGroup]
      rw [hAvailable] at hTake
      rw [applyTop_group op (Arity.take?_eq_some hTake).2]
      simpa [State.openGroup] using around.append (Segment.group body hTake)

/-- Strict reading that succeeds has passed over one segment that comes to one formula. -/
theorem segment_of_run {count : Nat} {stack : List Formula} {tokens : List Token} {st : State}
    (rest : List Token) (reached : Reached tokens st)
    (hCloser : rest.head? = some .closer → st.topIsOperation = false)
    (hRun : (run ⟨.postfixed, true⟩ count st rest).result = .ok stack) :
    ∃ f, stack = [f] ∧ Segment false (tokens ++ rest) [f] := by
  match rest with
  | [] =>
      obtain ⟨notices, hFinish⟩ := result_run_nil.mp hRun
      cases reached with
      | @outside tokens formulas segment _ =>
          rw [finish_of_closed rfl rfl] at hFinish
          by_cases hOne : formulas.length = 1
          · obtain ⟨f, rfl⟩ := List.length_eq_one_iff.mp hOne
            simp at hFinish
            exact ⟨f, hFinish.1.symm, by simpa using segment⟩
          · simp [hOne] at hFinish
      | inside around body =>
          rw [finish_of_open rfl (by simp [State.openGroup])] at hFinish
          simp at hFinish
  | .opener :: rest =>
      obtain ⟨next, hStep, hNext⟩ := result_run_cons.mp hRun
      obtain rfl : st.openGroup = next := by
        simpa [step_opener (s := ⟨.postfixed, true⟩) rfl] using hStep
      by_cases hHollow : rest.head? = some .closer
      · obtain ⟨rest, rfl⟩ := List.head?_eq_some_iff.mp hHollow
        obtain ⟨closed, hClose, hLater⟩ := result_run_cons.mp hNext
        obtain ⟨hTop, hNear, parent, outer, hOuter, rfl⟩ := strict_step_closer.mp hClose
        obtain ⟨rfl, rfl⟩ := List.cons.inj hOuter
        have hSegment : Segment st.topIsOperation [.opener, .closer] [] := by
          rw [show st.topIsOperation = true from hTop]
          exact .hollow
        simpa using segment_of_run rest (reached.append hSegment)
          (fun hHead => absurd hHead hNear) hLater
      · have hInside : Reached (tokens ++ [.opener]) st.openGroup := by
          simpa [State.openGroup] using reached.inside (.nil _)
        simpa using segment_of_run rest hInside (fun hHead => absurd hHead hHollow) hNext
  | .closer :: rest =>
      obtain ⟨next, hStep, -⟩ := result_run_cons.mp hRun
      have hTop := (strict_step_closer.mp hStep).1
      rw [hCloser rfl] at hTop
      exact absurd hTop (by decide)
  | .operation op :: rest =>
      obtain ⟨next, hStep, hNext⟩ := result_run_cons.mp hRun
      obtain ⟨hLast, taken, hTake, rfl⟩ := strict_step_operation.mp hStep
      obtain ⟨rest, rfl⟩ := List.head?_eq_some_iff.mp hLast
      obtain ⟨closed, hClose, hLater⟩ := result_run_cons.mp hNext
      obtain ⟨-, hNear, parent, outer, hOuter, rfl⟩ := strict_step_closer.mp hClose
      simpa using segment_of_run rest (reached.close hTake hOuter)
        (fun hHead => absurd hHead hNear) hLater
  | .coordinate which :: rest =>
      obtain ⟨next, hStep, hNext⟩ := result_run_cons.mp hRun
      obtain rfl := Except.ok.inj hStep
      simpa using segment_of_run rest (reached.leaf rfl)
        (fun _ => reached.topIsOperation_push rfl) hNext
  | .number value :: rest =>
      obtain ⟨next, hStep, hNext⟩ := result_run_cons.mp hRun
      obtain rfl := Except.ok.inj hStep
      simpa using segment_of_run rest (reached.leaf rfl)
        (fun _ => reached.topIsOperation_push rfl) hNext
  | .oversized :: rest =>
      obtain ⟨next, hStep, -⟩ := result_run_cons.mp hRun
      simp [State.step] at hStep
  | .unknown text :: rest =>
      obtain ⟨next, hStep, -⟩ := result_run_cons.mp hRun
      simp [State.step] at hStep
termination_by rest.length

end Reached

/-- Strict reading of operations after their operands accepts exactly the segments that
come to one formula. -/
theorem strict_read_postfixed_iff (tokens : List Token) (stack : List Formula) :
    (read ⟨.postfixed, true⟩ tokens).result = .ok stack ↔
      ∃ f, stack = [f] ∧ Segment false tokens [f] := by
  constructor
  · intro hRead
    have hInitial : Reached [] .initial := .outside (.nil false) []
    exact hInitial.segment_of_run tokens (fun _ => rfl) hRead
  · rintro ⟨f, rfl, segment⟩
    have hRun : run ⟨.postfixed, true⟩ tokens.length .initial (tokens ++ []) = _ :=
      segment.run_append .initial rfl rfl [] (by simp)
    rw [List.append_nil] at hRun
    simp only [read, Settings.order, Settings.isBackward, reduceCtorEq, decide_false,
      Bool.false_eq_true, if_false, hRun]
    exact result_run_nil.mpr ⟨_, finish_of_closed rfl rfl⟩

end Formulas.Reading

import Formulas.Proofs.Reading.Leniency
import Formulas.Proofs.Reading.Mending
import Formulas.Proofs.Reading.Origin

/-! What the mistakes say that strict reading stops at. Each of them is true of the state in which
the reader makes it, and from there of the text. -/
namespace Formulas.Reading

/-- When the operations that came later in the current group have been applied, fewer formulas lie
above the base of this one than it needs. -/
def State.Lacks (s : Settings) (st : State) (w : Waiting) (older : List Waiting) : Prop :=
  ∃ newer stack said, st.group.waiting = newer ++ w :: older ∧
    flush s st.stack st.notices newer = .ok (stack, said) ∧ stack.length - w.base < w.op.minimum

/-- What a mistake says about the state and the next token, of which there is none at the end. -/
def Mistake.Fits (s : Settings) (st : State) (next? : Option Token) : Mistake → Prop
  | .unbalanced => next? = some s.closer ∧ st.outer = [] ∨ next? = none ∧ st.outer ≠ []
  | .fewOperands required op =>
    required = op.minimum ∧
      (s.form.allowsWaiting = false ∧ next? = some (.operation op) ∧ st.available < op.minimum ∨
        (next? = some s.closer ∨ next? = none) ∧ ∃ base older, st.Lacks s ⟨op, base⟩ older)
  | .fewOperations (.itemsLeft count) =>
    next? = none ∧ st.outer = [] ∧ count ≠ 1 ∧ ∃ left said,
      flush s st.stack st.notices st.group.waiting = .ok (left, said) ∧ left.length = count
  | .fewOperations _ => True
  | .unknownToken text => next? = some (.unknown text)

variable {s : Settings} {st : State} {token : Token} {next? : Option Token}
  {tokens : List Token} {what : Mistake}

theorem mapError_mistake_eq_error {A : Type} {result : Except Mistake A} :
    result.mapError Fault.mistake = .error (.mistake what) ↔ result = .error what := by
  cases result <;> simp

/-! Single steps. -/

theorem flush_eq_error {stack : List Formula} {notices : List Notice} {waiting : List Waiting}
    (hFlush : flush s stack notices waiting = .error what) :
    ∃ newer w older left said, waiting = newer ++ w :: older ∧
      flush s stack notices newer = .ok (left, said) ∧ left.length - w.base < w.op.minimum ∧
      what = .fewOperands w.op.minimum w.op := by
  induction waiting generalizing stack notices with
  | nil => cases hFlush
  | cons w rest ih =>
      simp only [flush] at hFlush
      cases hTake : w.op.arity.take? (stack.length - w.base) with
      | some count =>
          rw [hTake] at hFlush
          obtain ⟨newer, w', older, left, said, rfl, hNewer, hLacks⟩ := ih hFlush
          refine ⟨w :: newer, w', older, left, said, rfl, ?_, hLacks⟩
          simpa only [flush, hTake] using hNewer
      | none =>
          rw [hTake] at hFlush
          rcases Result.guard_eq_error.mp hFlush with ⟨-, rfl⟩ | ⟨hLenient, hFlush⟩
          · exact ⟨[], w, rest, stack, notices, rfl, rfl, Arity.take?_eq_none_iff.mp hTake, rfl⟩
          · obtain ⟨newer, w', older, left, said, rfl, hNewer, hLacks⟩ := ih hFlush
            refine ⟨w :: newer, w', older, left, said, rfl, ?_, hLacks⟩
            simpa only [flush, hTake, if_neg hLenient] using hNewer

/-- The end of a group refuses an operation for want of operands. -/
theorem fits_of_flush (hEnd : next? = some s.closer ∨ next? = none)
    (hFlush : flush s st.stack st.notices st.group.waiting = .error what) :
    what.Fits s st next? := by
  obtain ⟨newer, w, older, left, said, hWaiting, hNewer, hFew, rfl⟩ := flush_eq_error hFlush
  exact ⟨rfl, .inr ⟨hEnd, w.base, older, newer, left, said, hWaiting, hNewer, hFew⟩⟩

theorem closeWaiting_fits (hClose : st.closeWaiting s = .error what) :
    what.Fits s st (some s.closer) := by
  simp only [State.closeWaiting] at hClose
  cases hOuter : st.outer with
  | nil =>
      rw [hOuter] at hClose
      obtain ⟨-, rfl⟩ | ⟨-, hClose⟩ := Result.guard_eq_error.mp hClose
      · exact .inl ⟨rfl, hOuter⟩
      · cases hClose
  | cons parent outer =>
      rw [hOuter] at hClose
      obtain hFlush | ⟨flushed, -, hClose⟩ := Result.bind_eq_error.mp hClose
      · exact fits_of_flush (.inl rfl) hFlush
      · obtain ⟨-, rfl⟩ | ⟨-, hClose⟩ := Result.guard_eq_error.mp hClose
        · trivial
        · cases hClose

theorem closeBracketed_fits (hClose : st.closeBracketed s next? = .error what) :
    what.Fits s st (some s.closer) := by
  obtain ⟨-, rfl⟩ | ⟨-, hClose⟩ := Result.guard_eq_error.mp hClose
  · trivial
  obtain ⟨-, rfl⟩ | ⟨-, hClose⟩ := Result.guard_eq_error.mp hClose
  · trivial
  cases hOuter : st.outer with
  | nil =>
      rw [hOuter] at hClose
      obtain ⟨-, rfl⟩ | ⟨-, hClose⟩ := Result.guard_eq_error.mp hClose
      · exact .inl ⟨rfl, hOuter⟩
      · cases hClose
  | cons parent outer =>
      rw [hOuter] at hClose
      cases hClose

theorem meetBracketed_fits {op : Operation} (hForm : s.form.allowsWaiting = false)
    (hMeet : st.meetBracketed s op next? = .error what) :
    what.Fits s st (some (.operation op)) := by
  obtain ⟨-, rfl⟩ | ⟨-, hMeet⟩ := Result.guard_eq_error.mp hMeet
  · trivial
  cases hTake : op.arity.take? st.available with
  | some count =>
      rw [hTake] at hMeet
      cases hMeet
  | none =>
      rw [hTake] at hMeet
      obtain ⟨-, rfl⟩ | ⟨-, hMeet⟩ := Result.guard_eq_error.mp hMeet
      · exact ⟨rfl, .inl ⟨hForm, rfl, Arity.take?_eq_none_iff.mp hTake⟩⟩
      · cases hMeet

/-- A mistake at a token is true there. -/
theorem step_fits (hStep : st.step s token next? = .error (.mistake what)) :
    what.Fits s st (some token) := by
  by_cases hOpener : token = s.opener
  · rw [hOpener, step_opens] at hStep
    cases hStep
  by_cases hCloser : token = s.closer
  · rw [hCloser, step_closes, mapError_mistake_eq_error] at hStep
    rw [hCloser]
    split_ifs at hStep
    · exact closeWaiting_fits hStep
    · exact closeBracketed_fits hStep
  obtain ⟨hNoOpener, hNoCloser⟩ := Settings.ne_brackets hOpener hCloser
  cases token with
  | opener => exact absurd rfl hNoOpener
  | closer => exact absurd rfl hNoCloser
  | coordinate which => cases hStep
  | number value => cases hStep
  | oversized => cases hStep
  | unknown text =>
      obtain ⟨-, hFault⟩ | ⟨-, hStep⟩ := Result.guard_eq_error.mp hStep
      · obtain rfl := Fault.mistake.inj hFault
        rfl
      · cases hStep
  | operation op =>
      simp only [State.step] at hStep
      split_ifs at hStep with hForm
      exact meetBracketed_fits (by simpa using hForm) (mapError_mistake_eq_error.mp hStep)

/-- A mistake at the end of the text is true there. -/
theorem finish_fits (hStrict : s.strict = true) (hFinish : st.finish s = .error what) :
    what.Fits s st none := by
  obtain ⟨⟨-, hOpen⟩, rfl⟩ | ⟨hClosed, hFinish⟩ := Result.guard_eq_error.mp hFinish
  · exact .inr ⟨rfl, hOpen⟩
  have hOuter : st.outer = [] := by simpa [hStrict] using hClosed
  rw [hOuter, finishGroups] at hFinish
  obtain hFlush | ⟨⟨left, said⟩, hFlush, hEnd⟩ := Result.bind_eq_error.mp hFinish
  · exact fits_of_flush (.inr rfl) hFlush
  · obtain ⟨⟨-, hMany⟩, rfl⟩ | ⟨-, hEnd⟩ := Result.guard_eq_error.mp hEnd
    · exact ⟨rfl, hOuter, hMany, left, said, hFlush, rfl⟩
    · cases hEnd

/-! Whole texts. -/

/-- A mistake is true of some state that the reader comes to. -/
theorem read_fits (hStrict : s.strict = true)
    (hRead : (read s tokens).result = .error (.mistake what)) :
    ∃ passed left st, s.order tokens = passed ++ left ∧
      State.initial.advance s left.head? passed = .ok st ∧ what.Fits s st left.head? := by
  rw [read, result_run, Result.map_eq_error, Result.bind_eq_error] at hRead
  rcases hRead with hAdvance | ⟨last, hAdvance, hFinish⟩
  · obtain ⟨passed, token, left, st, hOrder, hPassed, hStep⟩ := advance_eq_error hAdvance
    exact ⟨passed, token :: left, st, hOrder, hPassed, step_fits hStep⟩
  · exact ⟨s.order tokens, [], last, (List.append_nil _).symm, hAdvance,
      finish_fits hStrict (mapError_mistake_eq_error.mp hFinish)⟩

/-- The brackets of a text that is refused for them are not balanced. -/
theorem not_balanced_of_read (hStrict : s.strict = true)
    (hRead : (read s tokens).result = .error (.mistake .unbalanced)) :
    ¬ Token.Balanced tokens := by
  obtain ⟨passed, left, st, hOrder, hAdvance, hFits⟩ := read_fits hStrict hRead
  have hDepth : passed.foldlM s.depthAfter? 0 = some st.outer.length :=
    strict_depth_advance hStrict hAdvance
  rw [← Settings.isBalanced_order_iff (s := s), hOrder, Settings.isBalanced, decide_eq_true_iff,
    List.foldlM_append, hDepth, Option.bind_eq_bind, Option.bind_some]
  rcases hFits with ⟨hNext, hOuter⟩ | ⟨hNext, hOpen⟩
  · obtain ⟨left, rfl⟩ := List.head?_eq_some_iff.mp hNext
    simp [hOuter, Settings.depthAfter?_closer_zero]
  · obtain rfl := List.head?_eq_none_iff.mp hNext
    simpa using hOpen

/-- The token that is refused as unknown is the first one. -/
theorem unknown_of_read (hStrict : s.strict = true) {text : String}
    (hRead : (read s tokens).result = .error (.mistake (.unknownToken text))) :
    ∃ passed left, s.order tokens = passed ++ .unknown text :: left ∧
      ∀ token ∈ passed, token.isKnown = true := by
  obtain ⟨passed, left, st, hOrder, hAdvance, hFits⟩ := read_fits hStrict hRead
  obtain ⟨left, rfl⟩ := List.head?_eq_some_iff.mp hFits
  exact ⟨passed, left, hOrder, ((advance_course hAdvance).strict hStrict).2⟩

/-- The formulas that are left when all has been read, with all brackets balanced. -/
theorem itemsLeft_of_read (hStrict : s.strict = true) {count : Nat}
    (hRead : (read s tokens).result = .error (.mistake (.fewOperations (.itemsLeft count)))) :
    Token.Balanced tokens ∧ ∃ last stack said,
      State.initial.advance s none (s.order tokens) = .ok last ∧ last.outer = [] ∧
        flush s last.stack last.notices last.group.waiting = .ok (stack, said) ∧
        stack.length = count ∧ count ≠ 1 ∧ (read s.lenient tokens).result = .ok stack := by
  obtain ⟨passed, left, last, hOrder, hAdvance, hFits⟩ := read_fits hStrict hRead
  obtain ⟨hNext, hOuter, hMany, stack, said, hFlush, hCount⟩ := hFits
  obtain rfl := List.head?_eq_none_iff.mp hNext
  obtain rfl : s.order tokens = passed := by simpa using hOrder
  rw [List.head?_nil] at hAdvance
  have hBalanced : s.isBalanced (s.order tokens) = true := by
    have hDepth := strict_depth_advance hStrict hAdvance
    rw [hOuter] at hDepth
    exact decide_eq_true hDepth
  have hFinish : last.finish s.lenient = .ok (stack, said) :=
    (finish_eq_ok hOuter).mpr ⟨flush_lenient hFlush, fun hRefuses => Bool.noConfusion hRefuses⟩
  have hLenient : (read s.lenient tokens).result = .ok stack := by
    have hSame : s.lenient.order tokens = s.order tokens := rfl
    rw [read, hSame, result_run, advance_lenient hAdvance, Result.ok_bind, hFinish]
    rfl
  exact ⟨Settings.isBalanced_order_iff.mp hBalanced, last, stack, said, hAdvance, hOuter, hFlush,
    hCount, hMany, hLenient⟩

/-- An operation that too few formulas are available to, between the tokens that are read before it
and those that are read behind it. -/
inductive Starves (s : Settings) (op : Operation) : List Token → List Token → Prop where
  /-- Operations cannot wait, and there are too few above the innermost open bracket. -/
  | atOnce {passed left : List Token} {st : State} (hForm : s.form.allowsWaiting = false)
      (hMet : State.initial.advance s (some (.operation op)) passed = .ok st)
      (hFew : st.available < op.minimum) : Starves s op passed left
  /-- The operation waits until its group ends, and there are too few above its base then. -/
  | atEnd {passed seen left : List Token} {st last : State} {base : Nat} {older : List Waiting}
      (hMet : State.initial.advance s (some (.operation op)) passed = .ok st)
      (hWaits : Waits s st ⟨op, base⟩ older)
      (hSeen : (st.await op base).advance s left.head? seen = .ok last)
      (hKeeps : Keeps s left.head? (st.await op base) seen st.outer.length (⟨op, base⟩ :: older))
      (hDepth : last.outer.length = st.outer.length)
      (hEnd : left.head? = some s.closer ∨ left.head? = none)
      (hLacks : last.Lacks s ⟨op, base⟩ older) : Starves s op passed (seen ++ left)

/-- The operation for which there are too few operands, and how many it needs. -/
theorem starves_of_read (hStrict : s.strict = true) {required : Nat} {op : Operation}
    (hRead : (read s tokens).result = .error (.mistake (.fewOperands required op))) :
    required = op.minimum ∧ ∃ passed left,
      s.order tokens = passed ++ .operation op :: left ∧ Starves s op passed left := by
  obtain ⟨passed, left, last, hOrder, hAdvance, rfl, hFew⟩ := read_fits hStrict hRead
  refine ⟨rfl, ?_⟩
  rcases hFew with ⟨hForm, hNext, hFew⟩ | ⟨hEnd, base, older, hLacks⟩
  · obtain ⟨left, rfl⟩ := List.head?_eq_some_iff.mp hNext
    exact ⟨passed, left, hOrder, .atOnce hForm hAdvance hFew⟩
  · obtain ⟨newer, -, -, hWaiting, -⟩ := id hLacks
    have hHolds : last.Holds last.outer.length (⟨op, base⟩ :: older) :=
      State.holds_group ⟨newer, hWaiting.symm⟩
    obtain ⟨passed, seen, st, rfl, hMet, hDepth, hWaits, hSeen, hKeeps⟩ :=
      exists_waits hAdvance hHolds
    rw [← hDepth] at hKeeps
    refine ⟨passed, seen ++ left, by simpa using hOrder, ?_⟩
    exact .atEnd hMet hWaits hSeen hKeeps hDepth.symm hEnd hLacks

/-- The piece of text behind some of the tokens. -/
theorem exists_piece {pieces : List String} {passed left : List Token}
    (hOrder : s.order (pieces.map Token.ofText) = passed ++ token :: left) :
    ∃ front piece back, s.orderTexts pieces = front ++ piece :: back ∧
      front.map Token.ofText = passed ∧ Token.ofText piece = token ∧
      back.map Token.ofText = left := by
  rw [Settings.order_map_ofText] at hOrder
  obtain ⟨front, rest, hPieces, hFront, hRest⟩ := List.map_eq_append_iff.mp hOrder
  obtain ⟨piece, back, rfl, hPiece, hBack⟩ := List.map_eq_cons_iff.mp hRest
  exact ⟨front, piece, back, hPieces, hFront, hPiece, hBack⟩

/-- Strict reading tells the truth about what it refuses, whatever the pieces of the text are. If it
refuses the brackets, they are not balanced. If it refuses a piece as unknown, that is no word, and
it is the first such piece that is read. If it refuses an operation, the operation occurs, needs as
many operands as is said, and so many formulas are not available to it there. And if formulas are
left, they are as many as is said, and not one, when all has been read and the brackets are
balanced. -/
theorem read_pieces_mistake (form : Notation) (pieces : List String) :
    let s : Settings := ⟨form, true⟩
    let tokens := pieces.map Token.ofText
    let result := (read s tokens).result
    (result = .error (.mistake .unbalanced) → ¬ Token.Balanced tokens) ∧
      (∀ text, result = .error (.mistake (.unknownToken text)) →
        ∃ passed left, s.orderTexts pieces = passed ++ text :: left ∧ ¬ Token.IsWord text ∧
          ∀ piece ∈ passed, Token.IsWord piece) ∧
      (∀ required op, result = .error (.mistake (.fewOperands required op)) →
        required = op.minimum ∧
          ∃ passed left, s.orderTexts pieces = passed ++ op.symbol :: left ∧
            Starves s op (passed.map Token.ofText) (left.map Token.ofText)) ∧
      ∀ count, result = .error (.mistake (.fewOperations (.itemsLeft count))) →
        Token.Balanced tokens ∧ ∃ last stack said,
          State.initial.advance s none (s.order tokens) = .ok last ∧ last.outer = [] ∧
            flush s last.stack last.notices last.group.waiting = .ok (stack, said) ∧
            stack.length = count ∧ count ≠ 1 ∧ (read s.lenient tokens).result = .ok stack := by
  intro s tokens result
  refine ⟨not_balanced_of_read rfl, fun text hRead => ?_, fun required op hRead => ?_,
    fun count => itemsLeft_of_read rfl⟩
  · obtain ⟨passed, left, hOrder, hKnown⟩ := unknown_of_read rfl hRead
    obtain ⟨front, piece, back, hPieces, rfl, hPiece, rfl⟩ := exists_piece hOrder
    obtain ⟨rfl, hNoWord⟩ := Token.ofText_eq_unknown_iff.mp hPiece
    refine ⟨front, back, hPieces, hNoWord, fun word hWord => ?_⟩
    by_contra hNone
    have hToken := hKnown _ (List.mem_map_of_mem hWord)
    rw [Token.ofText_eq_unknown_iff.mpr ⟨rfl, hNone⟩] at hToken
    exact Bool.noConfusion hToken
  · obtain ⟨hRequired, passed, left, hOrder, hStarves⟩ := starves_of_read rfl hRead
    obtain ⟨front, piece, back, hPieces, rfl, hPiece, rfl⟩ := exists_piece hOrder
    obtain rfl := Token.ofText_eq_operation_iff.mp hPiece
    exact ⟨hRequired, front, back, hPieces, hStarves⟩

/-- A mean takes both formulas, so that the operation that has waited before it finds one; a text
that is read from back to front closes what it has not opened; a name is no number; and two formulas
are left. -/
theorem read_pieces_mistake_mean :
    let mean := ["(", "hypot", "arithMean", "1", "2", ")"]
    let torn := ["(", "+", "1", "x"]
    let named := ["x", "inf", "y", "+"]
    let loose := ["x", "+", "1", "y"]
    let tokens (pieces : List String) := pieces.map Token.ofText
    ((read ⟨.infixed, true⟩ (tokens mean)).result =
        .error (.mistake (.fewOperands 2 .hypot)) ∧
      ∃ passed left, mean = passed ++ "hypot" :: left ∧
        Starves ⟨.infixed, true⟩ .hypot (tokens passed) (tokens left)) ∧
    ((read ⟨.prefixed, true⟩ (tokens torn)).result = .error (.mistake .unbalanced) ∧
      ¬ Token.Balanced (tokens torn)) ∧
    ((read ⟨.postfixed, true⟩ (tokens named)).result =
        .error (.mistake (.unknownToken "inf")) ∧ ¬ Token.IsWord "inf") ∧
    (read ⟨.plain, true⟩ (tokens loose)).result =
        .error (.mistake (.fewOperations (.itemsLeft 2))) ∧ Token.Balanced (tokens loose) := by
  intro mean torn named loose tokens
  have hMean : (read ⟨.infixed, true⟩ (tokens mean)).result =
      .error (.mistake (.fewOperands 2 .hypot)) := by decide
  have hTorn : (read ⟨.prefixed, true⟩ (tokens torn)).result = .error (.mistake .unbalanced) := by
    decide
  have hNamed : (read ⟨.postfixed, true⟩ (tokens named)).result =
      .error (.mistake (.unknownToken "inf")) := by decide
  have hLoose : (read ⟨.plain, true⟩ (tokens loose)).result =
      .error (.mistake (.fewOperations (.itemsLeft 2))) := by decide
  obtain ⟨-, -, hFew, -⟩ := read_pieces_mistake .infixed mean
  obtain ⟨-, hStarves⟩ := hFew 2 .hypot hMean
  obtain ⟨hUnbalanced, -⟩ := read_pieces_mistake .prefixed torn
  obtain ⟨-, hUnknown, -⟩ := read_pieces_mistake .postfixed named
  obtain ⟨_, _, -, hNoWord, -⟩ := hUnknown "inf" hNamed
  obtain ⟨-, -, -, hLeft⟩ := read_pieces_mistake .plain loose
  exact ⟨⟨hMean, hStarves⟩, ⟨hTorn, hUnbalanced hTorn⟩, ⟨hNamed, hNoWord⟩, hLoose,
    (hLeft 2 hLoose).1⟩

end Formulas.Reading

import Formulas.Proofs.Reading.Faults
import Formulas.Proofs.Reading.Isolation
import Formulas.Proofs.Reading.Record

/-! Mended texts. Reading that repairs mistakes does to a torn text what it does to the text that
is made whole before: without what it does not know, without brackets that close nothing, and with
a bracket at the end for each group that was left open. -/
namespace Formulas.Reading

namespace Settings

/-- The bracket that ends a group, as a piece of text. -/
def closerText (s : Settings) : String :=
  if s.isBackward then "(" else ")"

/-- The pieces in the order in which they are read. -/
def orderTexts (s : Settings) (pieces : List String) : List String :=
  if s.isBackward then pieces.reverse else pieces

/-- The number of open groups after one more token that stays in a mended text. An unknown token
does not, nor does a closing bracket that has no group to close. -/
def depthKept? (s : Settings) (depth : Nat) : Token → Option Nat
  | .unknown _ => none
  | token => s.depthAfter? depth token

/-- The pieces of a mended text in the order of reading, when so many groups are open. -/
def mend (s : Settings) : Nat → List String → List String
  | depth, [] => List.replicate depth s.closerText
  | depth, piece :: rest =>
    match s.depthKept? depth (Token.ofText piece) with
    | some after => piece :: s.mend after rest
    | none => s.mend depth rest

/-- The text made whole. -/
def mendTexts (s : Settings) (pieces : List String) : List String :=
  s.orderTexts (s.mend 0 (s.orderTexts pieces))

variable {s : Settings} {depth after : Nat} {token : Token}

@[simp] theorem ofText_closerText (s : Settings) : Token.ofText s.closerText = s.closer := by
  cases hBackward : s.isBackward <;> simp [closerText, closer, hBackward]

@[simp] theorem orderTexts_orderTexts (s : Settings) (pieces : List String) :
    s.orderTexts (s.orderTexts pieces) = pieces := by
  unfold orderTexts
  split_ifs <;> simp

theorem mem_orderTexts {piece : String} {pieces : List String} :
    piece ∈ s.orderTexts pieces ↔ piece ∈ pieces := by
  unfold orderTexts
  split_ifs <;> simp

theorem order_map_ofText (s : Settings) (pieces : List String) :
    s.order (pieces.map Token.ofText) = (s.orderTexts pieces).map Token.ofText := by
  unfold order orderTexts
  split_ifs <;> simp

theorem depthAfter?_of_depthKept? (hKept : s.depthKept? depth token = some after) :
    s.depthAfter? depth token = some after := by
  cases token with
  | unknown text => exact nomatch hKept
  | _ => exact hKept

/-- What goes is an unknown token or a bracket that closes nothing. -/
theorem depthKept?_eq_none (hGone : s.depthKept? depth token = none) :
    (∃ text, token = .unknown text) ∨ token = s.closer ∧ depth = 0 := by
  by_cases hUnknown : ∃ text, token = .unknown text
  · exact .inl hUnknown
  · right
    have hAfter : s.depthAfter? depth token = none := by
      cases token with
      | unknown text => exact absurd ⟨text, rfl⟩ hUnknown
      | _ => exact hGone
    simp only [depthAfter?] at hAfter
    split_ifs at hAfter with _ hCloser hNone
    exact ⟨hCloser, hNone⟩

theorem mend_cons_of_kept {piece : String} {rest : List String}
    (hKept : s.depthKept? depth (Token.ofText piece) = some after) :
    s.mend depth (piece :: rest) = piece :: s.mend after rest := by
  simp only [mend, hKept]

theorem mend_cons_of_gone {piece : String} {rest : List String}
    (hGone : s.depthKept? depth (Token.ofText piece) = none) :
    s.mend depth (piece :: rest) = s.mend depth rest := by
  simp only [mend, hGone]

theorem foldlM_replicate_closer (s : Settings) (depth : Nat) :
    (List.replicate depth s.closer).foldlM s.depthAfter? depth = some 0 := by
  induction depth with
  | zero => rfl
  | succ depth ih =>
      rw [List.replicate_succ, List.foldlM_cons, depthAfter?_closer]
      exact ih

/-- The brackets of a mended text are balanced. -/
theorem foldlM_mend (s : Settings) (depth : Nat) (pieces : List String) :
    ((s.mend depth pieces).map Token.ofText).foldlM s.depthAfter? depth = some 0 := by
  induction pieces generalizing depth with
  | nil => simpa [mend] using s.foldlM_replicate_closer depth
  | cons piece rest ih =>
      cases hKept : s.depthKept? depth (Token.ofText piece) with
      | none =>
          rw [mend_cons_of_gone hKept]
          exact ih depth
      | some after =>
          rw [mend_cons_of_kept hKept, List.map_cons, List.foldlM_cons,
            depthAfter?_of_depthKept? hKept]
          exact ih after

theorem ne_unknown_of_mem_mend {piece : String} (depth : Nat) {pieces : List String}
    (hPiece : piece ∈ s.mend depth pieces) (text : String) :
    Token.ofText piece ≠ .unknown text := by
  induction pieces generalizing depth with
  | nil =>
      rw [List.eq_of_mem_replicate hPiece, ofText_closerText]
      cases hBackward : s.isBackward <;> simp [closer, hBackward]
  | cons first rest ih =>
      cases hKept : s.depthKept? depth (Token.ofText first) with
      | none =>
          rw [mend_cons_of_gone hKept] at hPiece
          exact ih depth hPiece
      | some after =>
          rw [mend_cons_of_kept hKept] at hPiece
          rcases List.mem_cons.mp hPiece with rfl | hPiece
          · intro hUnknown
            rw [hUnknown] at hKept
            exact Option.some_ne_none after hKept.symm
          · exact ih after hPiece

/-- Whole texts stay as they are. -/
theorem mend_of_isBalanced {pieces : List String}
    (hBalanced : (pieces.map Token.ofText).foldlM s.depthAfter? depth = some 0)
    (hKnown : ∀ piece ∈ pieces, ∀ text, Token.ofText piece ≠ .unknown text) :
    s.mend depth pieces = pieces := by
  induction pieces generalizing depth with
  | nil =>
      obtain rfl : depth = 0 := Option.some.inj hBalanced
      rfl
  | cons piece rest ih =>
      obtain ⟨after, hAfter, hRest⟩ := Option.bind_eq_some_iff.mp hBalanced
      have hKept : s.depthKept? depth (Token.ofText piece) = some after := by
        cases hToken : Token.ofText piece with
        | unknown text => exact absurd hToken (hKnown piece (List.mem_cons_self ..) text)
        | _ => rw [← hToken, ← hAfter, hToken]; rfl
      rw [mend_cons_of_kept hKept,
        ih hRest fun later hLater => hKnown later (List.mem_cons_of_mem _ hLater)]

end Settings

/-- What reading came to, with the notices of lost operations only. -/
def Outcome.core (outcome : Outcome) : Except Fault (List Formula) × List Notice :=
  (outcome.result, outcome.notices.filter Notice.isLoss)

variable {s : Settings} {st next : State} {count : Nat}

/-- Notices that report no loss do not count. -/
theorem core_run_note {notice : Notice} (hRemark : notice.isLoss = false) (tokens : List Token) :
    (run s count (st.note notice) tokens).core = (run s count st tokens).core := by
  have hFresh (notices : List Notice) :
      ({ st with notices := notices } : State) = State.since notices { st with notices := [] } := by
    simp [State.since]
  have hNoted : st.note notice = State.since (notice :: st.notices) { st with notices := [] } :=
    hFresh _
  have hBefore : st = State.since st.notices { st with notices := [] } := hFresh _
  rw [hNoted, hBefore, run_since, run_since]
  simp [Outcome.core, State.since, hRemark]

section
variable (hLenient : s.strict = false)
include hLenient

/-- A group that is open at the end of a text may as well be closed there. -/
theorem finish_of_step_closer {next? : Option Token}
    (hIdle : s.form.allowsWaiting = false → st.Idle) (hOpen : st.outer ≠ [])
    (hStep : st.step s s.closer next? = .ok next) : next.finish s = st.finish s := by
  obtain ⟨stack, group, outer, notices⟩ := st
  obtain ⟨parent, outer, rfl⟩ := List.exists_cons_of_ne_nil hOpen
  rw [step_closes, Result.mapError_eq_ok] at hStep
  split_ifs at hStep with hWaits
  · obtain ⟨⟨left, said⟩, hFlush, hStep⟩ := Result.bind_eq_ok.mp hStep
    obtain ⟨-, hStep⟩ := Result.guard_eq_ok.mp hStep
    obtain rfl := Except.ok.inj hStep
    simp [State.finish, State.settleGroup, finishGroups, hLenient, hFlush]
  -- Without waiting operations neither the group nor the one around it has anything to apply.
  · have hWaiting := hIdle (by simpa using hWaits)
    have hGroup : group.waiting = [] := hWaiting _ (List.mem_cons_self ..)
    have hParent : parent.waiting = [] :=
      hWaiting _ (List.mem_cons_of_mem _ (List.mem_cons_self ..))
    obtain rfl : State.mk stack parent outer notices = next := by
      simpa [State.closeBracketed, hLenient] using hStep
    obtain ⟨start, waiting⟩ := parent
    obtain rfl : waiting = [] := hParent
    simp [State.finish, finishGroups, hLenient, hGroup, flush, settle]

theorem run_nil (count : Nat) (st : State) : ∃ left, st.finish s = .ok left ∧
    run s count st [] = ⟨.ok left.1, (Notice.finished count s :: left.2).reverse⟩ := by
  obtain ⟨left, hFinish⟩ := State.finish_of_lenient hLenient st
  exact ⟨left, hFinish, by simp [run, hFinish]⟩

/-- Brackets behind a text that end all open groups do what the end of the text does. -/
theorem core_run_closers (hIdle : s.form.allowsWaiting = false → st.Idle) (whole : Nat) :
    (run s whole st (List.replicate st.outer.length s.closer)).core = (run s count st []).core := by
  generalize hDepth : st.outer.length = depth
  induction depth generalizing st with
  | zero =>
      obtain ⟨left, hFinish, hRun⟩ := run_nil hLenient count st
      obtain ⟨left', hFinish', hRun'⟩ := run_nil hLenient whole st
      obtain rfl := Except.ok.inj (hFinish.symm.trans hFinish')
      rw [List.replicate_zero, hRun, hRun']
      simp [Outcome.core, Notice.isLoss]
  | succ depth ih =>
      have hOpen : st.outer ≠ [] := List.ne_nil_of_length_eq_add_one hDepth
      have hCloser : s.closer ≠ .oversized := by
        cases hBackward : s.isBackward <;> simp [Settings.closer, hBackward]
      obtain ⟨next, hStep⟩ := State.step_of_lenient hLenient hCloser
        (List.replicate depth s.closer).head? st
      have hAfter : next.outer.length = depth := by
        refine outer_length_of_depthAfter? hStep ?_
        rw [hDepth, Settings.depthAfter?_closer]
      have hNext : s.form.allowsWaiting = false → next.Idle := fun hBracketed =>
        (step_course hStep).idle hBracketed (hIdle hBracketed)
      rw [List.replicate_succ, run_of_step hStep, ih hNext hAfter]
      simp only [run, finish_of_step_closer hLenient hIdle hOpen hStep]
      obtain ⟨left, hFinish⟩ := State.finish_of_lenient hLenient st
      rw [hFinish]

/-- From any state, a mended text comes to what the torn one comes to. -/
theorem core_run_mend (hIdle : s.form.allowsWaiting = false → st.Idle) (whole : Nat)
    (pieces : List String) :
    (run s whole st ((s.mend st.outer.length pieces).map Token.ofText)).core =
      (run s count st (pieces.map Token.ofText)).core := by
  induction pieces generalizing st with
  | nil => simpa [Settings.mend] using core_run_closers hLenient hIdle whole
  | cons piece rest ih =>
      cases hKept : s.depthKept? st.outer.length (Token.ofText piece) with
      | none =>
          rw [Settings.mend_cons_of_gone hKept, ih hIdle, List.map_cons]
          rcases Settings.depthKept?_eq_none hKept with ⟨text, hUnknown⟩ | ⟨hCloser, hDepth⟩
          · have hStep : st.step s (Token.ofText piece) (rest.map Token.ofText).head? =
                .ok (st.note (.unknownToken text)) := by
              simp [hUnknown, State.step, hLenient]
            rw [run_of_step hStep, core_run_note rfl]
          · have hOuter : st.outer = [] := List.length_eq_zero_iff.mp hDepth
            have hStep : st.step s (Token.ofText piece) (rest.map Token.ofText).head? =
                .ok st := by
              rw [hCloser, step_closes, Result.mapError_eq_ok]
              simp [State.closeWaiting, State.closeBracketed, hOuter, hLenient]
            rw [run_of_step hStep]
      | some after =>
          rw [Settings.mend_cons_of_kept hKept, List.map_cons, List.map_cons]
          have hLook : st.step s (Token.ofText piece)
              ((s.mend after rest).map Token.ofText).head? =
                st.step s (Token.ofText piece) (rest.map Token.ofText).head? :=
            step_next? (.inl hLenient) _ _
          cases hStep : st.step s (Token.ofText piece) (rest.map Token.ofText).head? with
          | error fault => simp only [run, hLook, hStep]
          | ok next =>
              have hAfter : next.outer.length = after :=
                outer_length_of_depthAfter? hStep (Settings.depthAfter?_of_depthKept? hKept)
              have hNext : s.form.allowsWaiting = false → next.Idle := fun hBracketed =>
                (step_course hStep).idle hBracketed (hIdle hBracketed)
              rw [run_of_step (hLook.trans hStep), run_of_step hStep, ← hAfter, ih hNext]

end

/-- Reading with repairs comes to the same formulas, and passes over the same operations, when the
text is mended before: when all unknown pieces are left out in the order of reading, and all
closing brackets that have no group to close, and when a bracket at the end closes each group that
is open there. The mended text is balanced and knows all its pieces, and mending changes nothing
in a text that is so already. -/
theorem read_mendTexts (form : Notation) (pieces : List String) :
    let s : Settings := ⟨form, false⟩
    let mended := (s.mendTexts pieces).map Token.ofText
    (read s mended).result = (read s (pieces.map Token.ofText)).result ∧
      (read s mended).notices.filter Notice.isLoss =
        (read s (pieces.map Token.ofText)).notices.filter Notice.isLoss ∧
      s.isBalanced (s.order mended) = true ∧
      (∀ token ∈ mended, ∀ text, token ≠ .unknown text) ∧
      (s.isBalanced (s.order (pieces.map Token.ofText)) = true →
        (∀ piece ∈ pieces, ∀ text, Token.ofText piece ≠ .unknown text) →
          s.mendTexts pieces = pieces) := by
  intro s mended
  have hOrder : s.order mended = (s.mend 0 (s.orderTexts pieces)).map Token.ofText := by
    rw [Settings.order_map_ofText, Settings.mendTexts, Settings.orderTexts_orderTexts]
  have hCore : (read s mended).core = (read s (pieces.map Token.ofText)).core := by
    rw [read, read, hOrder, s.order_map_ofText pieces]
    exact core_run_mend rfl (fun _ => State.idle_initial) _ _
  obtain ⟨hResult, hLosses⟩ := Prod.mk.inj hCore
  refine ⟨hResult, hLosses, ?_, ?_, fun hBalanced hKnown => ?_⟩
  · rw [hOrder]
    exact decide_eq_true (s.foldlM_mend 0 (s.orderTexts pieces))
  · intro token hToken
    obtain ⟨piece, hPiece, rfl⟩ := List.mem_map.mp hToken
    exact Settings.ne_unknown_of_mem_mend 0 (Settings.mem_orderTexts.mp hPiece)
  · have hSame : s.mend 0 (s.orderTexts pieces) = s.orderTexts pieces := by
      refine Settings.mend_of_isBalanced ?_ fun piece hPiece =>
        hKnown piece (Settings.mem_orderTexts.mp hPiece)
      rw [← s.order_map_ofText]
      exact of_decide_eq_true hBalanced
    rw [Settings.mendTexts, hSame, Settings.orderTexts_orderTexts]

/-- A text with a bracket that closes nothing, an unknown piece and two groups left open, and the
same text whole, in which there is nothing more to mend. -/
theorem read_mendTexts_sum :
    let s : Settings := ⟨.infixed, false⟩
    let torn := [")", "(", "1", "w", "+", "(", "negate", "x"]
    let whole := ["(", "1", "+", "(", "negate", "x", ")", ")"]
    s.mendTexts torn = whole ∧
      (read s (whole.map Token.ofText)).result = (read s (torn.map Token.ofText)).result ∧
      (read s (whole.map Token.ofText)).notices.filter Notice.isLoss =
        (read s (torn.map Token.ofText)).notices.filter Notice.isLoss ∧
      s.isBalanced (s.order (whole.map Token.ofText)) = true ∧
      (∀ token ∈ whole.map Token.ofText, ∀ text, token ≠ .unknown text) ∧
      s.mendTexts whole = whole := by
  intro s torn whole
  have hMended : s.mendTexts torn = whole := by decide
  obtain ⟨hResult, hLosses, hBalanced, hKnown, -⟩ := read_mendTexts .infixed torn
  rw [hMended] at hResult hLosses hBalanced hKnown
  obtain ⟨-, -, -, -, hSame⟩ := read_mendTexts .infixed whole
  exact ⟨hMended, hResult, hLosses, hBalanced, hKnown,
    hSame hBalanced fun piece hPiece => hKnown _ (List.mem_map_of_mem hPiece)⟩

end Formulas.Reading

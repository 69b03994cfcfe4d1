import Formulas.Proofs.Formula.Scan
import Formulas.Proofs.Numeral.Limit
import Formulas.Proofs.Reading.Conservation

/-! Where reading stops. Reading that repairs mistakes stops at nothing but an integer with too
many digits, and strict reading stops at mistakes besides; nothing else keeps either of them from
coming to its end. -/
namespace Formulas.Reading

variable {s : Settings} {st last : State} {token : Token} {next? : Option Token}
  {tokens : List Token} {fault : Fault}

section
variable (hLenient : s.strict = false)
include hLenient

/-! Every step of reading that repairs succeeds, unless its token is an overlong integer. -/

theorem flush_of_lenient (stack : List Formula) (notices : List Notice) (waiting : List Waiting) :
    ∃ left, flush s stack notices waiting = .ok left := by
  induction waiting generalizing stack notices with
  | nil => exact ⟨_, rfl⟩
  | cons w rest ih =>
      simp only [flush]
      cases w.op.arity.take? (stack.length - w.base) with
      | some count => exact ih _ _
      | none => simpa [hLenient] using ih _ _

theorem finishGroups_of_lenient (stack : List Formula) (notices : List Notice) (group : Group)
    (outer : List Group) : ∃ left, finishGroups s stack notices group outer = .ok left := by
  induction outer generalizing stack notices group with
  | nil => exact flush_of_lenient hLenient stack notices group.waiting
  | cons parent outer ih =>
      obtain ⟨flushed, hFlush⟩ := flush_of_lenient hLenient stack notices group.waiting
      simp only [finishGroups, hFlush, Result.ok_bind]
      exact ih _ _ _

namespace State

theorem finish_of_lenient (st : State) : ∃ left, st.finish s = .ok left := by
  obtain ⟨left, hGroups⟩ :=
    finishGroups_of_lenient hLenient st.stack st.notices st.group st.outer
  exact ⟨left, by simp [finish, hLenient, hGroups]⟩

theorem closeWaiting_of_lenient (st : State) : ∃ next, st.closeWaiting s = .ok next := by
  unfold closeWaiting
  cases st.outer with
  | nil => exact ⟨st, by simp [hLenient]⟩
  | cons parent outer =>
      obtain ⟨flushed, hFlush⟩ := flush_of_lenient hLenient st.stack st.notices st.group.waiting
      simp [hFlush, hLenient]

theorem closeBracketed_of_lenient (next? : Option Token) (st : State) :
    ∃ next, st.closeBracketed s next? = .ok next := by
  unfold closeBracketed
  cases st.outer with
  | nil => exact ⟨st, by simp [hLenient]⟩
  | cons parent outer => simp [hLenient]

theorem meetBracketed_of_lenient (op : Operation) (next? : Option Token) (st : State) :
    ∃ next, st.meetBracketed s op next? = .ok next := by
  unfold meetBracketed
  cases op.arity.take? st.available with
  | some count => simp [hLenient]
  | none => simp [hLenient]

theorem step_of_lenient (hToken : token ≠ .oversized) (next? : Option Token) (st : State) :
    ∃ next, st.step s token next? = .ok next := by
  by_cases hOpener : token = s.opener
  · exact ⟨st.openGroup, hOpener ▸ step_opens next?⟩
  by_cases hCloser : token = s.closer
  · obtain ⟨next, hClose⟩ : ∃ next, (if s.form.allowsWaiting then st.closeWaiting s
        else st.closeBracketed s next?) = .ok next := by
      split_ifs
      · exact closeWaiting_of_lenient hLenient st
      · exact closeBracketed_of_lenient hLenient next? st
    exact ⟨next, by rw [hCloser, step_closes, hClose, Result.mapError_ok]⟩
  obtain ⟨hNoOpener, hNoCloser⟩ := Settings.ne_brackets hOpener hCloser
  cases token with
  | opener => exact absurd rfl hNoOpener
  | closer => exact absurd rfl hNoCloser
  | coordinate which => exact ⟨_, rfl⟩
  | number value => exact ⟨_, rfl⟩
  | oversized => exact absurd rfl hToken
  | unknown text => exact ⟨st.note (.unknownToken text), by simp [step, hLenient]⟩
  | operation op =>
      obtain ⟨next, hMeet⟩ := meetBracketed_of_lenient hLenient op next? st
      simp only [step, hMeet, Result.mapError_ok]
      split_ifs
      · exact ⟨_, rfl⟩
      · exact ⟨_, rfl⟩

end State

/-- Reading that repairs fails exactly at overlong integers. -/
theorem result_run_eq_error (count : Nat) :
    (run s count st tokens).result = .error fault ↔
      fault = .numeralTooLong ∧ .oversized ∈ tokens := by
  induction tokens generalizing st with
  | nil =>
      obtain ⟨left, hFinish⟩ := State.finish_of_lenient hLenient st
      simp [run, hFinish]
  | cons token rest ih =>
      by_cases hToken : token = .oversized
      · subst hToken
        simp [run, State.step, stop, eq_comm]
      · obtain ⟨next, hStep⟩ := State.step_of_lenient hLenient hToken rest.head? st
        rw [run_of_step hStep, ih]
        simp [Ne.symm hToken]

theorem result_read_eq_error :
    (read s tokens).result = .error fault ↔ fault = .numeralTooLong ∧ .oversized ∈ tokens := by
  rw [read, result_run_eq_error hLenient, (s.order_perm tokens).mem_iff]

end

/-- In every mode a reader stops at an overlong integer when it meets one, and nowhere else for
this reason. -/
theorem step_eq_numeralTooLong_iff :
    st.step s token next? = .error .numeralTooLong ↔ token = .oversized := by
  cases token with
  | opener => simp [State.step, Result.mapError_eq_error]
  | closer => simp [State.step, Result.mapError_eq_error]
  | operation op =>
      simp only [State.step]
      split_ifs <;> simp [Result.mapError_eq_error]
  | coordinate which => simp [State.step]
  | number value => simp [State.step]
  | oversized => simp [State.step]
  | unknown text =>
      simp only [State.step]
      split_ifs <;> simp

/-- Reading stops at an overlong integer if it comes so far, that is, if nothing is refused
before. -/
theorem result_run_eq_numeralTooLong_iff (count : Nat) :
    (run s count st tokens).result = .error .numeralTooLong ↔
      ∃ passed left, tokens = passed ++ .oversized :: left ∧
        ∃ last, st.advance s (some .oversized) passed = .ok last := by
  have hFinish (last : State) :
      (last.finish s).mapError Fault.mistake ≠ .error .numeralTooLong := by
    simp [Result.mapError_eq_error]
  rw [result_run, Result.map_eq_error, Result.bind_eq_error]
  constructor
  · rintro (hAdvance | ⟨last, -, hEnd⟩)
    · obtain ⟨passed, token, left, last, rfl, hPassed, hStep⟩ := advance_eq_error hAdvance
      obtain rfl := step_eq_numeralTooLong_iff.mp hStep
      exact ⟨passed, left, rfl, last, hPassed⟩
    · exact absurd hEnd (hFinish last)
  · rintro ⟨passed, left, rfl, last, hPassed⟩
    left
    rw [advance_append]
    exact Result.bind_eq_error.mpr (.inr ⟨last, hPassed, rfl⟩)

/-- Without overlong integers, reading stops at mistakes only, and only strict reading does. -/
theorem mistake_of_read_eq_error (hNone : .oversized ∉ tokens)
    (hRead : (read s tokens).result = .error fault) :
    s.strict = true ∧ ∃ what, fault = .mistake what := by
  cases hStrict : s.strict with
  | false => exact absurd ((result_read_eq_error hStrict).mp hRead).2 hNone
  | true =>
      cases fault with
      | mistake what => exact ⟨rfl, what, rfl⟩
      | numeralTooLong =>
          obtain ⟨passed, left, hOrder, -⟩ := (result_run_eq_numeralTooLong_iff _).mp hRead
          rw [← (s.order_perm tokens).mem_iff, hOrder] at hNone
          simp at hNone

/-- The kinds that mistakes are classified into. -/
theorem Mistake.kind_mem (what : Mistake) :
    what.kind ∈ ["unbalanced_parentheses", "insufficient_operands", "insufficient_operations",
      "unknown_token"] := by
  cases what <;> simp [Mistake.kind]

/-- Strict reading that succeeds has a formula to show for it. -/
theorem root?_of_strict_read {root : Option Formula} (hStrict : s.strict = true)
    (hRoot : (read s tokens).root? = .ok root) : ∃ f, root = some f := by
  obtain ⟨stack, hRead, rfl⟩ := Result.map_eq_ok.mp hRoot
  obtain ⟨f, rfl⟩ := List.length_eq_one_iff.mp (strict_length_eq_one hStrict hRead)
  exact ⟨f, rfl⟩

/-- Reading a text fails only as it should, but for integers with too many digits. Where mistakes
are repaired, it fails exactly if such an integer occurs. In strict reading it fails for this
reason exactly if it comes to one before anything is refused. In all other texts reading with
repairs comes to a formula or to nothing, and strict reading comes to a formula or to a
classified mistake. -/
theorem readText_faults (form : Notation) (text : String) :
    (∀ fault, (readText ⟨form, false⟩ text).root? = .error fault ↔
      fault = .numeralTooLong ∧ ∃ piece ∈ Token.split text, Numeral.IsOverlong piece) ∧
    ((readText ⟨form, true⟩ text).root? = .error .numeralTooLong ↔
      ∃ passed left, Settings.order ⟨form, true⟩ (Token.scan text) = passed ++ .oversized :: left ∧
        ∃ last, State.initial.advance ⟨form, true⟩ (some .oversized) passed = .ok last) ∧
    ((∀ piece ∈ Token.split text, ¬ Numeral.IsOverlong piece) →
      (∃ root, (readText ⟨form, false⟩ text).root? = .ok root) ∧
      ((∃ f, (readText ⟨form, true⟩ text).root? = .ok (some f)) ∨
        ∃ what, (readText ⟨form, true⟩ text).root? = .error (.mistake what) ∧
          what.kind ∈ ["unbalanced_parentheses", "insufficient_operands",
            "insufficient_operations", "unknown_token"])) := by
  have hLenient (fault : Fault) : (readText ⟨form, false⟩ text).root? = .error fault ↔
      fault = .numeralTooLong ∧ ∃ piece ∈ Token.split text, Numeral.IsOverlong piece := by
    rw [← Token.oversized_mem_scan_iff]
    exact Result.map_eq_error.trans (result_read_eq_error rfl)
  have hStrict : (readText ⟨form, true⟩ text).root? = .error .numeralTooLong ↔
      ∃ passed left, Settings.order ⟨form, true⟩ (Token.scan text) = passed ++ .oversized :: left ∧
        ∃ last, State.initial.advance ⟨form, true⟩ (some .oversized) passed = .ok last :=
    Result.map_eq_error.trans (result_run_eq_numeralTooLong_iff _)
  refine ⟨hLenient, hStrict, fun hPieces => ?_⟩
  have hNone : Token.oversized ∉ Token.scan text := by
    rw [Token.oversized_mem_scan_iff]
    rintro ⟨piece, hPiece, hLong⟩
    exact hPieces piece hPiece hLong
  constructor
  · cases hRoot : (readText ⟨form, false⟩ text).root? with
    | ok root => exact ⟨root, rfl⟩
    | error fault =>
        have hRepairs := (mistake_of_read_eq_error hNone (Result.map_eq_error.mp hRoot)).1
        exact Bool.noConfusion hRepairs
  · cases hRoot : (readText ⟨form, true⟩ text).root? with
    | ok root =>
        obtain ⟨f, rfl⟩ := root?_of_strict_read rfl hRoot
        exact .inl ⟨f, rfl⟩
    | error fault =>
        obtain ⟨-, what, rfl⟩ := mistake_of_read_eq_error hNone (Result.map_eq_error.mp hRoot)
        exact .inr ⟨what, rfl, what.kind_mem⟩

/-- A text with a bracket too many and an unknown piece. -/
theorem readText_faults_bracket :
    let text := ") w (1 hypot"
    (∀ piece ∈ Token.split text, ¬ Numeral.IsOverlong piece) ∧
      (∃ root, (readText ⟨.prefixed, false⟩ text).root? = .ok root) ∧
      ((∃ f, (readText ⟨.prefixed, true⟩ text).root? = .ok (some f)) ∨
        ∃ what, (readText ⟨.prefixed, true⟩ text).root? = .error (.mistake what) ∧
          what.kind ∈ ["unbalanced_parentheses", "insufficient_operands",
            "insufficient_operations", "unknown_token"]) := by
  intro text
  have hNone : ∀ piece ∈ Token.split text, ¬ Numeral.IsOverlong piece := by
    simp only [← Numeral.read_eq_tooLong_iff_isOverlong]
    decide
  exact ⟨hNone, (readText_faults .prefixed text).2.2 hNone⟩

/-- The integer is read before anything can be refused, so that nothing is made of the formula in
front of it either, with repairs or without. -/
theorem readText_overlong :
    let text := "x " ++ String.ofList (List.replicate 4301 '1')
    (readText ⟨.infixed, false⟩ text).root? = .error .numeralTooLong ∧
      (readText ⟨.infixed, true⟩ text).root? = .error .numeralTooLong := by
  intro text
  have hLong : Numeral.IsOverlong (String.ofList (List.replicate 4301 '1')) :=
    Numeral.isOverlong_replicate (by decide)
  have hScan : Token.scan text = [.coordinate .x, .oversized] := by
    have hX : Token.SplitsInto "x" ["x"] := Token.splitsInto_of_isRun (by decide)
    have hSplit : Token.split text = ["x", String.ofList (List.replicate 4301 '1')] :=
      (hX.blank (Token.splitsInto_of_isRun hLong.isRun)).split
    rw [Token.scan, hSplit, List.map_cons, List.map_singleton,
      Token.ofText_eq_oversized_iff.mpr hLong]
    rfl
  simp only [readText, hScan]
  exact ⟨rfl, rfl⟩

end Formulas.Reading

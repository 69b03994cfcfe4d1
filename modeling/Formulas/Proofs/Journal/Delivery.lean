import Formulas.Proofs.Journal.Channel
import Mathlib.Data.List.Count
import Mathlib.Data.List.Basic

/-! What a journal writes, and where. Whatever has been asked of it, a message that the verbosity
admits goes to the console once, as long as all files open that are asked for. One that does not
leaves the handlers of a journal that never comes into force. A message goes to the file once, too,
if the journal has been configured with one and silence has not been asked for since: the handlers
that are rebuilt when silence begins or ends are rebuilt without the file. -/
namespace Formulas

namespace Verbosity

variable {verbosity : Verbosity} {severity : Severity}

/-- Silence admits nothing. -/
theorem ne_silent_of_admits (hAdmits : verbosity.admits severity = true) :
    verbosity ≠ .silent := by
  rintro rfl
  cases severity <;> exact nomatch hAdmits

/-- Warnings are admitted by all but silence. -/
theorem admits_warning (hSpeaks : verbosity ≠ .silent) : verbosity.admits .warning = true := by
  cases verbosity with
  | silent => exact absurd rfl hSpeaks
  | _ => rfl

/-- When the last of several verbosities is not silent, they are alike in that exactly if none of
them is silent. -/
theorem alike_iff_silent_not_mem {last : Verbosity} {later : List Verbosity}
    (hLast : last ∈ verbosity :: later) (hSpeaks : last ≠ .silent) :
    (∀ other ∈ verbosity :: later, (other = .silent ↔ verbosity = .silent)) ↔
      .silent ∉ verbosity :: later := by
  constructor
  · intro hSame hSilent
    exact hSpeaks ((hSame _ hLast).mpr ((hSame _ hSilent).mp rfl))
  · intro hNone other hOther
    exact iff_of_false (ne_of_mem_of_not_mem hOther hNone)
      (ne_of_mem_of_not_mem (List.mem_cons_self ..) hNone)

/-- What else is asked of a message makes no difference exactly during silence and where it holds
anyway: a warning tells. -/
theorem admits_and_iff {Also : Prop} :
    (∀ message : Message, verbosity.admits message.severity = true ∧ Also ↔
      verbosity.admits message.severity = true) ↔ verbosity = .silent ∨ Also := by
  constructor
  · intro hAlone
    by_cases hSilent : verbosity = .silent
    · exact .inl hSilent
    · exact .inr ((hAlone ⟨.warning, ""⟩).mpr (admits_warning hSilent)).2
  · rintro (hSilent | hAlso) message
    · exact and_iff_left_of_imp fun hAdmits => absurd hSilent (ne_silent_of_admits hAdmits)
    · exact and_iff_left hAlso

end Verbosity

namespace Journal

namespace Call

/-- The file that a call asks for opens, or it asks for none. -/
def opens : Call → Bool
  | .configure moment _ toFile path? =>
    !toFile || (moment.refusal? (moment.path path?)).isNone
  | _ => true

/-- The verbosity that a call puts in force. -/
def verbosity? (call : Call) : Option Verbosity :=
  match call with
  | .setVerbosity verbosity => some verbosity
  | .configure _ verbosity _ _ => if call.opens then some verbosity else none
  | .access | .report _ => none

/-- The call configures the journal anew. -/
def isConfiguration : Call → Bool
  | .configure .. => true
  | _ => false

end Call

/-- The verbosity that was put in force last, which is minimal if none was. -/
def verbosityAfter (calls : List Call) : Verbosity :=
  (calls.filterMap Call.verbosity?).getLastD .minimal

/-- The verbosity of a journal that is used as it is. -/
def level (journal : Journal) : Verbosity :=
  journal.verbosity?.getD .minimal

/-- The handlers are those that some journal attaches, with one file at most. -/
def AreAttached (handlers : List Handler) : Prop :=
  ∃ verbosity files, handlers = attach verbosity (.ok files) ∧
    (files = [] ∨ ∃ path, files = [.file path])

variable {journal : Journal} {verbosity : Verbosity} {call : Call} {calls later : List Call}
  {handlers : List Handler} {moment : Moment} {toFile : Bool} {path? : Option String}

/-! The verbosity -/

theorem inForce_of_verbosity (hVerbosity : journal.verbosity? = some verbosity) :
    journal.inForce = journal := by
  simp [inForce, hVerbosity]

theorem verbosity_inForce (journal : Journal) :
    journal.inForce.verbosity? = some journal.level := by
  obtain ⟨_ | verbosity, handlers⟩ := journal
  · rfl
  · rfl

theorem level_inForce (journal : Journal) : journal.inForce.level = journal.level := by
  rw [level, verbosity_inForce, Option.getD_some]

/-- The file that is wanted is opened, or it refuses. -/
theorem files_cases (moment : Moment) (verbosity : Verbosity) (toFile : Bool)
    (path? : Option String) :
    ((Call.configure moment verbosity toFile path?).opens = true ∧ moment.files toFile path? =
      .ok (if toFile then [.file (moment.path path?)] else [])) ∨
    ((Call.configure moment verbosity toFile path?).opens = false ∧
      ∃ refusal, moment.files toFile path? = .error refusal) := by
  cases toFile with
  | false => exact .inl ⟨rfl, rfl⟩
  | true =>
      cases hRefusal : moment.refusal? (moment.path path?) with
      | none => exact .inl (by simp [Call.opens, Moment.files, hRefusal])
      | some refusal => exact .inr (by simp [Call.opens, Moment.files, hRefusal])

/-- A call that does not succeed leaves the verbosity as it was. -/
theorem level_answer (journal : Journal) (call : Call) :
    (journal.answer call).state.level = call.verbosity?.getD journal.level := by
  cases call with
  | access => exact level_inForce journal
  | report message => exact level_inForce journal
  | setVerbosity verbosity =>
      simp only [answer, setVerbosity]
      split
      · rfl
      · split_ifs <;> rfl
  | configure moment verbosity toFile path? =>
      simp only [answer, Answer.ofFiles, Call.verbosity?]
      rcases files_cases moment verbosity toFile path? with
        ⟨hOpens, hFiles⟩ | ⟨hRefuses, refusal, hFiles⟩
      · rw [hFiles, hOpens]
        rfl
      · rw [hFiles, hRefuses]
        rfl

/-- The verbosity is the one that was put in force last. -/
theorem level_after (journal : Journal) (calls : List Call) : (journal.after calls).level =
    (calls.filterMap Call.verbosity?).getLastD journal.level := by
  induction calls generalizing journal with
  | nil => rfl
  | cons call rest ih =>
      rw [List.filterMap_cons]
      refine (ih (journal.answer call).state).trans ?_
      rw [level_answer]
      cases call.verbosity? with
      | none => rfl
      | some asked => rw [Option.getD_some, List.getLastD_cons]

theorem level_after_unset (calls : List Call) :
    (unset.after calls).level = verbosityAfter calls :=
  level_after unset calls

/-! The handlers -/

theorem areAttached_attach (moment : Moment) (verbosity : Verbosity) (toFile : Bool)
    (path? : Option String) : AreAttached (attach verbosity (moment.files toFile path?)) := by
  rcases files_cases moment verbosity toFile path? with ⟨-, hFiles⟩ | ⟨-, refusal, hFiles⟩
  · rw [hFiles]
    refine ⟨verbosity, _, rfl, ?_⟩
    cases toFile with
    | false => exact .inl rfl
    | true => exact .inr ⟨_, rfl⟩
  · rw [hFiles]
    exact ⟨verbosity, [], rfl, .inl rfl⟩

theorem areAttached_bare (verbosity : Verbosity) : AreAttached (attach verbosity (.ok [])) :=
  ⟨verbosity, [], rfl, .inl rfl⟩

theorem AreAttached.inForce (hAttached : AreAttached journal.handlers) :
    AreAttached journal.inForce.handlers := by
  unfold Journal.inForce
  split
  · exact hAttached
  · exact areAttached_bare .minimal

theorem AreAttached.answer (hAttached : AreAttached journal.handlers) (call : Call) :
    AreAttached (journal.answer call).state.handlers := by
  cases call with
  | access => exact hAttached.inForce
  | report message => exact hAttached.inForce
  | setVerbosity verbosity =>
      simp only [Journal.answer, setVerbosity]
      split
      · exact areAttached_bare verbosity
      · split_ifs
        · exact hAttached
        · exact areAttached_bare verbosity
  | configure moment verbosity toFile path? =>
      exact areAttached_attach moment verbosity toFile path?

theorem AreAttached.after (hAttached : AreAttached journal.handlers) (calls : List Call) :
    AreAttached (journal.after calls).handlers := by
  induction calls generalizing journal with
  | nil => exact hAttached
  | cons call rest ih => exact ih (hAttached.answer call)

theorem filter_deliveries (message : Message) (handlers : List Handler) {among : Handler → Bool}
    (hLast : among .lastResort = false) :
    (message.deliveries handlers).filter (fun line => among line.handler) =
      (handlers.filter among).map fun handler =>
        ⟨handler, message.severity.line message.text⟩ := by
  unfold Message.deliveries
  split_ifs with hBare
  · simp [hBare.1, hLast]
  · rw [List.filter_map]
    rfl

/-- What a message causes at some of the handlers. -/
theorem filter_report (journal : Journal) (message : Message) (among : Handler → Bool)
    (hLast : among .lastResort = false) :
    (journal.answer (.report message)).lines.filter (fun line => among line.handler) =
      if journal.level.admits message.severity then
        (journal.inForce.handlers.filter among).map fun handler =>
          ⟨handler, message.severity.line message.text⟩
      else [] := by
  have hAdmits : journal.inForce.admits message.severity =
      journal.level.admits message.severity := by
    simp only [admits, verbosity_inForce]
  simp only [answer, report, List.flatMap_singleton, deliveries, hAdmits]
  split_ifs
  · exact filter_deliveries message _ hLast
  · rfl

/-- A configuration whose file does not open fails after it has attached the console. The journal
that is in force stays silent, and the console is not its own. -/
theorem console_left_by_refusal :
    let barred : Moment := ⟨"20240229_120000", fun _ => some "No such file or directory"⟩
    let configuration : Call := .configure barred .verbose true (some "/no/such/dir/x.log")
    let channel := Channel.unset.after [.setVerbosity .silent]
    let answer := channel.answer configuration
    channel.IsSettled ∧ configuration.opens = false ∧
      answer.refusal? = some "No such file or directory" ∧
      answer.state.inForce? = some (0, .silent) ∧ answer.state.attached = [⟨1, .console⟩] ∧
      ¬ answer.state.IsSettled := by
  refine ⟨fun _ hLast => congrArg some (Nat.succ.inj hLast), rfl, rfl, rfl, rfl, fun hSettled => ?_⟩
  exact absurd (hSettled 1 rfl) (by decide)

/-! The file -/

/-- A call that does not configure the journal keeps its files unless silence begins or ends. -/
theorem filter_answer (hVerbosity : journal.verbosity? = some verbosity)
    (hCall : call.isConfiguration = false) :
    (journal.answer call).state.handlers.filter Handler.isFile =
      if ∀ asked ∈ call.verbosity?, (asked = .silent ↔ verbosity = .silent) then
        journal.handlers.filter Handler.isFile
      else [] := by
  cases call with
  | access => simp [answer, inForce_of_verbosity hVerbosity, Call.verbosity?]
  | report message => simp [answer, report, inForce_of_verbosity hVerbosity, Call.verbosity?]
  | configure moment asked toFile path? => exact Bool.noConfusion hCall
  | setVerbosity asked =>
      simp only [answer, setVerbosity, hVerbosity, Call.verbosity?, Option.mem_some_iff,
        forall_eq']
      by_cases hSame : (verbosity = .silent) ↔ (asked = .silent)
      · rw [if_pos hSame, if_pos hSame.symm]
      · rw [if_neg hSame, if_neg fun hChange => hSame hChange.symm]
        by_cases hSilent : asked = .silent <;> simp [make, attach, hSilent, Handler.isFile]

/-- A journal that has a verbosity goes on to have one. -/
theorem verbosity_answer (hVerbosity : journal.verbosity? = some verbosity) (call : Call) :
    ∃ current, (journal.answer call).state.verbosity? = some current := by
  cases call with
  | access => exact ⟨_, verbosity_inForce journal⟩
  | report message => exact ⟨_, verbosity_inForce journal⟩
  | setVerbosity asked =>
      simp only [answer, setVerbosity, hVerbosity]
      split_ifs
      · exact ⟨asked, rfl⟩
      · exact ⟨asked, rfl⟩
  | configure moment asked toFile path? =>
      simp only [answer, Answer.ofFiles, make]
      cases moment.files toFile path? with
      | ok files => exact ⟨asked, rfl⟩
      | error refusal => exact ⟨verbosity, hVerbosity⟩

theorem verbosity_after (hVerbosity : journal.verbosity? = some verbosity) (calls : List Call) :
    ∃ current, (journal.after calls).verbosity? = some current := by
  induction calls generalizing journal verbosity with
  | nil => exact ⟨verbosity, hVerbosity⟩
  | cons call rest ih =>
      obtain ⟨current, hCurrent⟩ := verbosity_answer hVerbosity call
      exact ih hCurrent

theorem filter_after (hVerbosity : journal.verbosity? = some verbosity)
    (hLater : ∀ call ∈ later, call.isConfiguration = false) :
    (journal.after later).handlers.filter Handler.isFile =
      if ∀ asked ∈ later.filterMap Call.verbosity?, (asked = .silent ↔ verbosity = .silent) then
        journal.handlers.filter Handler.isFile
      else [] := by
  induction later generalizing journal verbosity with
  | nil => simp [after]
  | cons call rest ih =>
      obtain ⟨hCall, hRest⟩ := List.forall_mem_cons.mp hLater
      obtain ⟨current, hCurrent⟩ := verbosity_answer hVerbosity call
      have hFirst := filter_answer hVerbosity hCall
      have hNext : current = call.verbosity?.getD verbosity := by
        have hLevel := level_answer journal call
        rwa [level, level, hCurrent, hVerbosity] at hLevel
      rw [show journal.after (call :: rest) = (journal.answer call).state.after rest from rfl,
        ih hCurrent hRest, hFirst, List.filterMap_cons]
      cases hAsked : call.verbosity? with
      | none =>
          obtain rfl : current = verbosity := by rw [hNext, hAsked, Option.getD_none]
          simp
      | some first =>
          obtain rfl : current = first := by rw [hNext, hAsked, Option.getD_some]
          by_cases hSame : current = .silent ↔ verbosity = .silent
          · rw [if_pos (c := ∀ asked ∈ some current, _) (by simpa using hSame)]
            refine if_congr ?_ rfl rfl
            simp only [List.forall_mem_cons, hSame, true_and]
          · simp [hSame]

/-- A configuration whose file opens attaches it, and nothing else that is a file. -/
theorem filter_make (hOpens : moment.refusal? (moment.path path?) = none) (journal : Journal)
    (verbosity : Verbosity) : (journal.make verbosity (moment.files true path?)).handlers.filter
      Handler.isFile = [.file (moment.path path?)] := by
  by_cases hSilent : verbosity = .silent <;>
    simp [make, attach, Moment.files, hOpens, hSilent, Handler.isFile]

/-- The verbosity after a configuration whose file opens is the last of those put in force since,
and its own if there were none. -/
theorem verbosityAfter_configure (history : List Call)
    (hOpens : moment.refusal? (moment.path path?) = none) (verbosity : Verbosity)
    (later : List Call) :
    verbosityAfter (history ++ .configure moment verbosity true path? :: later) =
      (later.filterMap Call.verbosity?).getLastD verbosity := by
  have hAsked : (Call.configure moment verbosity true path?).verbosity? = some verbosity := by
    simp [Call.verbosity?, Call.opens, hOpens]
  rw [verbosityAfter, List.filterMap_append, List.filterMap_cons, hAsked,
    List.getLastD_eq_getLast?, List.getLast?_append, List.getLast?_cons,
    List.getLastD_eq_getLast?]
  rfl

/-- What is done after a configuration starts from the journal that it makes. -/
theorem after_configure (history : List Call) (moment : Moment) (verbosity : Verbosity)
    (path? : Option String) (later : List Call) :
    unset.after (history ++ .configure moment verbosity true path? :: later) =
      ((unset.after history).make verbosity (moment.files true path?)).after later := by
  simp [after, List.foldl_append, answer, Answer.ofFiles]

theorem verbosity_make (hOpens : moment.refusal? (moment.path path?) = none) (journal : Journal)
    (verbosity : Verbosity) :
    (journal.make verbosity (moment.files true path?)).verbosity? = some verbosity := by
  simp [make, Moment.files, hOpens]

/-- The file is attached as long as silence neither begins nor ends. -/
theorem filter_after_configure (history : List Call) (verbosity : Verbosity)
    (hOpens : moment.refusal? (moment.path path?) = none)
    (hLater : ∀ call ∈ later, call.isConfiguration = false) :
    (unset.after (history ++ .configure moment verbosity true path? :: later)).handlers.filter
        Handler.isFile =
      if ∀ other ∈ verbosity :: later.filterMap Call.verbosity?,
          (other = .silent ↔ verbosity = .silent) then
        [.file (moment.path path?)]
      else [] := by
  rw [after_configure, filter_after (verbosity_make hOpens _ verbosity) hLater,
    filter_make hOpens]
  refine if_congr ?_ rfl rfl
  simp

theorem inForce_after_configure (history : List Call) (verbosity : Verbosity) (later : List Call)
    (hOpens : moment.refusal? (moment.path path?) = none) :
    (unset.after (history ++ .configure moment verbosity true path? :: later)).inForce =
      unset.after (history ++ .configure moment verbosity true path? :: later) := by
  rw [after_configure]
  obtain ⟨current, hCurrent⟩ := verbosity_after (verbosity_make hOpens _ verbosity) later
  exact inForce_of_verbosity hCurrent

/-- The lines of a message in files. -/
theorem lines_after_configure (history : List Call) (verbosity : Verbosity)
    (hOpens : moment.refusal? (moment.path path?) = none)
    (hLater : ∀ call ∈ later, call.isConfiguration = false) (message : Message) :
    let calls := history ++ .configure moment verbosity true path? :: later
    ((unset.after calls).answer (.report message)).lines.filter (fun line => line.handler.isFile) =
      if (verbosityAfter calls).admits message.severity ∧
          .silent ∉ verbosity :: later.filterMap Call.verbosity? then
        [⟨.file (moment.path path?), message.severity.line message.text⟩]
      else [] := by
  intro calls
  refine (filter_report (unset.after calls) message Handler.isFile rfl).trans ?_
  rw [level_after_unset, inForce_after_configure history verbosity later hOpens,
    filter_after_configure history verbosity hOpens hLater]
  by_cases hAdmits : (verbosityAfter calls).admits message.severity = true
  · have hLast : verbosityAfter calls ∈ verbosity :: later.filterMap Call.verbosity? :=
      verbosityAfter_configure history hOpens verbosity later ▸ List.getLastD_mem_cons
    have hSilent := Verbosity.alike_iff_silent_not_mem hLast
      (Verbosity.ne_silent_of_admits hAdmits)
    rw [if_pos hAdmits, if_congr (hSilent.trans (and_iff_right hAdmits).symm) rfl rfl]
    split_ifs <;> rfl
  · rw [if_neg hAdmits, if_neg fun hBoth => hAdmits hBoth.1]

/-- A journal that has been configured with a file that opened keeps it as long as every verbosity
that is asked for is silent or speaking like that of the configuration. So a message causes exactly
one line in that file if it is admitted and the journal has not been silent since, and none in any
file otherwise; whether it is admitted decides alone exactly during silence and where there has been
none. -/
theorem writes_file_iff (history : List Call) (moment : Moment) (verbosity : Verbosity)
    (path? : Option String) {later : List Call}
    (hOpens : moment.refusal? (moment.path path?) = none)
    (hLater : ∀ call ∈ later, call.isConfiguration = false) :
    let calls := history ++ .configure moment verbosity true path? :: later
    let journal := unset.after calls
    let file := Handler.file (moment.path path?)
    let asked := verbosity :: later.filterMap Call.verbosity?
    let lines (message : Message) :=
      (journal.answer (.report message)).lines.filter fun line => line.handler.isFile
    (file ∈ journal.handlers ↔ ∀ other ∈ asked, (other = .silent ↔ verbosity = .silent)) ∧
      (∀ message : Message, lines message =
        if (verbosityAfter calls).admits message.severity ∧ .silent ∉ asked then
          [⟨file, message.severity.line message.text⟩]
        else []) ∧
      ((∀ message : Message, lines message =
          if (verbosityAfter calls).admits message.severity then
            [⟨file, message.severity.line message.text⟩]
          else []) ↔ verbosityAfter calls = .silent ∨ .silent ∉ asked) := by
  intro calls journal file asked lines
  have hLines (message : Message) : lines message =
      if (verbosityAfter calls).admits message.severity ∧ .silent ∉ asked then
        [⟨file, message.severity.line message.text⟩]
      else [] :=
    lines_after_configure history verbosity hOpens hLater message
  refine ⟨?_, hLines, Iff.trans (forall_congr' fun message => ?_) Verbosity.admits_and_iff⟩
  · have hMem : file ∈ journal.handlers ↔ file ∈ journal.handlers.filter Handler.isFile := by
      rw [List.mem_filter]
      exact (and_iff_left rfl).symm
    rw [hMem, filter_after_configure history verbosity hOpens hLater]
    split_ifs with hAlike
    · exact iff_of_true (List.mem_singleton_self _) hAlike
    · exact iff_of_false List.not_mem_nil hAlike
  · rw [hLines]
    by_cases hAdmits : (verbosityAfter calls).admits message.severity = true <;> simp [hAdmits]

/-- The file stays through changes that are not about silence, and gets all messages that are
admitted. -/
theorem writes_file_iff_verbose :
    let moment : Moment := ⟨"20240229_120000", fun _ => none⟩
    let file : Handler := .file "symbolic_expressions_20240229_120000.log"
    let later : List Call := [.setVerbosity .verbose, .report ⟨.debug, "first"⟩]
    let journal := unset.after ([] ++ .configure moment .minimal true none :: later)
    (moment.refusal? (moment.path none) = none ∧
        ∀ call ∈ later, call.isConfiguration = false) ∧ file ∈ journal.handlers ∧
      (journal.answer (.report ⟨.detail, "last"⟩)).lines.filter (fun line => line.handler.isFile) =
        [⟨file, "INFO - last"⟩] := by
  intro moment file later journal
  have hOpens : moment.refusal? (moment.path none) = none := rfl
  have hLater : ∀ call ∈ later, call.isConfiguration = false := by decide
  obtain ⟨hFile, hLines, -⟩ := writes_file_iff [] moment .minimal none hOpens hLater
  exact ⟨⟨hOpens, hLater⟩, hFile.mpr (by decide), hLines ⟨.detail, "last"⟩⟩

/-- When silence has begun and ended, the file is gone: a warning that is admitted is written to the
console only. -/
theorem file_lost_in_silence :
    let moment : Moment := ⟨"20240229_120000", fun _ => none⟩
    let file : Handler := .file "symbolic_expressions_20240229_120000.log"
    let later : List Call := [.setVerbosity .silent, .setVerbosity .verbose]
    let calls := .configure moment .verbose true none :: later
    let journal := unset.after calls
    moment.refusal? (moment.path none) = none ∧ (∀ call ∈ later, call.isConfiguration = false) ∧
      (verbosityAfter calls).admits .warning = true ∧ file ∉ journal.handlers ∧
      (journal.answer (.report ⟨.warning, "lost"⟩)).lines = [⟨.console, "WARNING - lost"⟩] ∧
      (journal.answer (.report ⟨.warning, "lost"⟩)).lines.filter
        (fun line => line.handler.isFile) ≠ [⟨file, "WARNING - lost"⟩] := by
  refine ⟨rfl, by decide, rfl, by decide, rfl, (List.cons_ne_nil _ _).symm⟩

end Journal

end Formulas

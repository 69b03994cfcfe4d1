import Formulas.Journal
import Mathlib.Tactic.Common

/-! The channel that all journals share. A journal that is made detaches the handlers that it finds
there and attaches its own, and a message goes to whatever handlers are attached. These are always
those of the journal that was made last, which is the one in force unless its file did not open.
Without the makers of its handlers the channel is the journal. -/
namespace Formulas

/-- A handler on the channel, with the number of the journal that attached it. -/
structure Attachment where
  maker : Nat
  handler : Handler
  deriving DecidableEq

/-- How many journals have been made, which of them is in force and with what verbosity, and the
handlers that are attached. -/
structure Channel where
  made : Nat
  inForce? : Option (Nat × Verbosity)
  attached : List Attachment

namespace Channel

/-- No journal has been made. -/
def unset : Channel := ⟨0, none, []⟩

/-- Makes a journal, which detaches the handlers that it finds, one by one. It comes into force if
its files have been opened. -/
def make (channel : Channel) (verbosity : Verbosity) (files : Except String (List Handler)) :
    Channel where
  made := channel.made + 1
  inForce? :=
    match files with
    | .ok _ => some (channel.made, verbosity)
    | .error _ => channel.inForce?
  attached := channel.attached.foldl List.erase channel.attached ++
    (Journal.attach verbosity files).map (Attachment.mk channel.made)

/-- A journal of minimal verbosity is made if there is none. -/
def ready (channel : Channel) : Channel :=
  match channel.inForce? with
  | some _ => channel
  | none => channel.make .minimal (.ok [])

/-- Sets the verbosity of the journal in force. Another one is made when there is none, or when
silence begins or ends. -/
def setVerbosity (channel : Channel) (verbosity : Verbosity) : Channel :=
  match channel.inForce? with
  | none => channel.make verbosity (.ok [])
  | some (number, current) =>
    if (current = .silent) ↔ (verbosity = .silent) then
      { channel with inForce? := some (number, verbosity) }
    else channel.make verbosity (.ok [])

/-- The lines that a message causes at the handlers, if the journal in force admits it. -/
def deliveries (channel : Channel) (message : Message) : List Delivery :=
  match channel.inForce? with
  | some (_, verbosity) =>
    if verbosity.admits message.severity then
      message.deliveries (channel.attached.map Attachment.handler)
    else []
  | none => []

/-- The answer to a call. -/
def answer (channel : Channel) : Journal.Call → Journal.Answer Channel
  | .access => ⟨channel.ready, [], none⟩
  | .setVerbosity verbosity => ⟨channel.setVerbosity verbosity, [], none⟩
  | .configure moment verbosity toFile path? =>
    let files := moment.files toFile path?
    .ofFiles (channel.make verbosity files) files
  | .report message => ⟨channel.ready, channel.ready.deliveries message, none⟩

/-- The channel after calls in order, whether they fail or not. -/
def after (channel : Channel) (calls : List Journal.Call) : Channel :=
  calls.foldl (fun channel call => (channel.answer call).state) channel

/-- The journal in force, without the makers of the handlers. -/
def journal (channel : Channel) : Journal :=
  ⟨channel.inForce?.map Prod.snd, channel.attached.map Attachment.handler⟩

/-- The journal that was made last is in force. -/
def IsSettled (channel : Channel) : Prop :=
  ∀ last, channel.made = last + 1 → channel.inForce?.map Prod.fst = some last

variable {channel : Channel} {verbosity : Verbosity} {files : List Handler} {call : Journal.Call}

/-- When every handler that is found is detached, none is left. -/
theorem foldl_erase_self {α : Type} [DecidableEq α] (found : List α) :
    found.foldl List.erase found = [] := by
  induction found with
  | nil => rfl
  | cons a rest ih => rw [List.foldl_cons, List.erase_cons_head, ih]

theorem attached_make (channel : Channel) (verbosity : Verbosity)
    (files : Except String (List Handler)) : (channel.make verbosity files).attached =
      (Journal.attach verbosity files).map (Attachment.mk channel.made) := by
  show channel.attached.foldl List.erase channel.attached ++ _ = _
  rw [foldl_erase_self, List.nil_append]

/-! The channel and the journal -/

theorem journal_make (channel : Channel) (verbosity : Verbosity)
    (files : Except String (List Handler)) :
    (channel.make verbosity files).journal = channel.journal.make verbosity files := by
  have hHandlers : (channel.make verbosity files).attached.map Attachment.handler =
      Journal.attach verbosity files := by
    rw [attached_make, List.map_map]
    exact List.map_id _
  rw [journal, hHandlers]
  cases files <;> rfl

/-- The journal in force has been made, the handlers are those of the journal that was made last,
and if that is the one in force, the console is among them unless there is silence. -/
structure IsSound (channel : Channel) : Prop where
  older {number : Nat} {verbosity : Verbosity} :
    channel.inForce? = some (number, verbosity) → number < channel.made
  newest : ∀ a ∈ channel.attached, a.maker + 1 = channel.made
  console : channel.IsSettled → (.console ∈ channel.journal.handlers ↔
    ∃ verbosity, channel.journal.verbosity? = some verbosity ∧ verbosity ≠ .silent)

/-- A journal that comes into force was the last one made. -/
theorem isSettled_make (channel : Channel) (verbosity : Verbosity) (files : List Handler) :
    (channel.make verbosity (.ok files)).IsSettled := by
  intro last hLast
  exact congrArg some (Nat.succ.inj hLast)

/-- A journal whose files do not open does not come into force. -/
theorem IsSound.not_isSettled_make (hSound : channel.IsSound) (verbosity : Verbosity)
    (refusal : String) : ¬ (channel.make verbosity (.error refusal)).IsSettled := by
  intro hSettled
  obtain ⟨⟨number, current⟩, hInForce, hLast⟩ :=
    Option.map_eq_some_iff.mp (hSettled channel.made rfl)
  exact Nat.ne_of_lt (hSound.older hInForce) hLast

theorem IsSound.make (hSound : channel.IsSound) (verbosity : Verbosity)
    {files : Except String (List Handler)}
    (hFiles : ∀ handlers, files = .ok handlers → .console ∉ handlers) :
    (channel.make verbosity files).IsSound where
  older {number current} hInForce := by
    cases files with
    | ok handlers =>
        obtain ⟨rfl, -⟩ := Prod.mk.inj (Option.some.inj hInForce)
        exact Nat.lt_succ_self _
    | error refusal => exact Nat.lt_succ_of_lt (hSound.older hInForce)
  newest := by
    intro a ha
    rw [attached_make] at ha
    obtain ⟨handler, -, rfl⟩ := List.mem_map.mp ha
    rfl
  console hSettled := by
    cases files with
    | ok handlers =>
        rw [journal_make]
        have hNone := hFiles handlers rfl
        by_cases hSilent : verbosity = .silent <;>
          simp [Journal.make, Journal.attach, hSilent, hNone]
    | error refusal => exact absurd hSettled (hSound.not_isSettled_make verbosity refusal)

/-- Without a file, a journal always comes into force. -/
theorem IsSound.make_bare (hSound : channel.IsSound) (verbosity : Verbosity) :
    (channel.make verbosity (.ok [])).IsSound := by
  refine hSound.make verbosity fun handlers hFiles => ?_
  rw [← Except.ok.inj hFiles]
  exact List.not_mem_nil

theorem IsSound.ready (hSound : channel.IsSound) : channel.ready.IsSound := by
  unfold Channel.ready
  split
  · exact hSound
  · exact hSound.make_bare .minimal

theorem IsSound.setVerbosity (hSound : channel.IsSound) (verbosity : Verbosity) :
    (channel.setVerbosity verbosity).IsSound := by
  unfold Channel.setVerbosity
  split
  · exact hSound.make_bare verbosity
  · next number current hInForce =>
      split_ifs with hSame
      -- The journal stays the same one, whatever its verbosity is now.
      · refine ⟨fun hNow => ?_, hSound.newest, fun hSettled => ?_⟩
        · obtain ⟨rfl, -⟩ := Prod.mk.inj (Option.some.inj hNow)
          exact hSound.older hInForce
        · have hBefore : channel.IsSettled := by
            intro last hLast
            rw [hInForce]
            exact hSettled last hLast
          refine (hSound.console hBefore).trans ?_
          simpa [journal, hInForce] using not_congr hSame
      · exact hSound.make_bare verbosity

/-- The files that are opened are no console. -/
theorem console_not_mem_files {moment : Moment} {toFile : Bool} {path? : Option String}
    {handlers : List Handler} (hFiles : moment.files toFile path? = .ok handlers) :
    .console ∉ handlers := by
  unfold Moment.files at hFiles
  split at hFiles
  · split at hFiles
    · exact nomatch hFiles
    · simp [← Except.ok.inj hFiles]
  · simp [← Except.ok.inj hFiles]

theorem IsSound.answer (hSound : channel.IsSound) (call : Journal.Call) :
    (channel.answer call).state.IsSound := by
  cases call with
  | access => exact hSound.ready
  | setVerbosity verbosity => exact hSound.setVerbosity verbosity
  | configure moment verbosity toFile path? =>
      exact hSound.make verbosity fun _ => console_not_mem_files
  | report message => exact hSound.ready

theorem IsSound.after (hSound : channel.IsSound) (calls : List Journal.Call) :
    (channel.after calls).IsSound := by
  induction calls generalizing channel with
  | nil => exact hSound
  | cons call rest ih => exact ih (hSound.answer call)

theorem IsSettled.ready (hSettled : channel.IsSettled) : channel.ready.IsSettled := by
  unfold Channel.ready
  split
  · exact hSettled
  · exact isSettled_make _ _ _

theorem IsSettled.setVerbosity (hSettled : channel.IsSettled) (verbosity : Verbosity) :
    (channel.setVerbosity verbosity).IsSettled := by
  unfold Channel.setVerbosity
  split
  · exact isSettled_make _ _ _
  · next number current hInForce =>
      split_ifs
      · intro last hLast
        rw [← hSettled last hLast, hInForce]
        rfl
      · exact isSettled_make _ _ _

/-- A call that succeeds leaves a settled channel settled. -/
theorem IsSettled.answer (hSettled : channel.IsSettled)
    (hSucceeds : (channel.answer call).refusal? = none) :
    (channel.answer call).state.IsSettled := by
  cases call with
  | access => exact hSettled.ready
  | setVerbosity verbosity => exact hSettled.setVerbosity verbosity
  | configure moment verbosity toFile path? =>
      simp only [Channel.answer, Journal.Answer.ofFiles] at hSucceeds ⊢
      cases hFiles : moment.files toFile path? with
      | ok handlers => exact isSettled_make _ _ _
      | error refusal => simp [hFiles] at hSucceeds
  | report message => exact hSettled.ready

end Channel

end Formulas

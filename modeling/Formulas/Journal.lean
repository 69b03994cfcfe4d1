import Formulas.Reading.Notice
/-! A journal of leveled messages. There is one set of handlers, which a journal rebuilds when it
is made, and the verbosity of the journal in force, which may be unset. A message goes to every
handler if the verbosity admits its severity. A journal comes into force only when its file has
been opened, but the handlers are rebuilt before that. -/
namespace Formulas

/-- How much is reported. -/
inductive Verbosity where
  | silent
  | minimal
  | detailed
  | verbose
  deriving DecidableEq

namespace Verbosity

def all : List Verbosity := [.silent, .minimal, .detailed, .verbose]

def rank : Verbosity → Nat
  | .silent => 0
  | .minimal => 1
  | .detailed => 2
  | .verbose => 3

def name : Verbosity → String
  | .silent => "SILENT"
  | .minimal => "MINIMAL"
  | .detailed => "DETAILED"
  | .verbose => "VERBOSE"

/-- The verbosity of a name. -/
def ofName? (name : String) : Option Verbosity :=
  all.find? fun verbosity => verbosity.name = name

end Verbosity

/-- What a message is about: input that was skipped or repaired, a summary of a call, or
anything else. -/
inductive Severity where
  | warning
  | detail
  | debug
  deriving DecidableEq

namespace Severity

/-- The least verbosity at which a message is reported. -/
def threshold : Severity → Verbosity
  | .warning => .minimal
  | .detail => .detailed
  | .debug => .verbose

/-- The message as it is written, after the mark of its severity. -/
def line : Severity → String → String
  | .warning, message => "WARNING - " ++ message
  | .detail, message => "INFO - " ++ message
  | .debug, message => "DEBUG - DEBUG: " ++ message

end Severity

namespace Verbosity

/-- Messages of this severity are reported. -/
def admits (verbosity : Verbosity) (severity : Severity) : Bool :=
  severity.threshold.rank ≤ verbosity.rank

end Verbosity

/-- A message with its severity. -/
structure Message where
  severity : Severity
  text : String

/-- Where messages go. The last resort is never attached; it takes the warnings for which no
handler is. -/
inductive Handler where
  | console
  | file (path : String)
  | lastResort
  deriving DecidableEq

namespace Handler

def name : Handler → String
  | .console => "StreamHandler"
  | .file _ => "FileHandler"
  | .lastResort => "_StderrHandler"

def isFile : Handler → Bool
  | .file _ => true
  | _ => false

end Handler

/-- A line that was written to a handler. -/
structure Delivery where
  handler : Handler
  line : String

/-- The lines that a message causes at the handlers that are attached. As a last resort a warning
is written without a mark. -/
def Message.deliveries (message : Message) (handlers : List Handler) : List Delivery :=
  if handlers = [] ∧ message.severity = .warning then [⟨.lastResort, message.text⟩]
  else handlers.map fun handler => ⟨handler, message.severity.line message.text⟩

/-- What is found outside when a journal is made: the date and time as they are written, and for
every path the error with which the file there refuses to open, if it does. -/
structure Moment where
  stamp : String
  refusal? : String → Option String

namespace Moment

/-- The path of a file. One that is not named is called after the date and time. -/
def path (moment : Moment) (path? : Option String) : String :=
  path?.getD ("symbolic_expressions_" ++ moment.stamp ++ ".log")

/-- Opens the file that is wanted, if any. -/
def files (moment : Moment) (toFile : Bool) (path? : Option String) :
    Except String (List Handler) :=
  if toFile then
    match moment.refusal? (moment.path path?) with
    | some refusal => .error refusal
    | none => .ok [.file (moment.path path?)]
  else .ok []

end Moment

/-- The verbosity is unset until the journal is first used or configured. -/
structure Journal where
  verbosity? : Option Verbosity
  handlers : List Handler

namespace Journal

/-- No handlers, and no verbosity. -/
def unset : Journal := ⟨none, []⟩

/-- The handlers that are attached: the console unless the verbosity is silent, and then the files,
if they have been opened. -/
def attach (verbosity : Verbosity) (files : Except String (List Handler)) : List Handler :=
  (if verbosity = .silent then [] else [.console]) ++
    match files with
    | .ok files => files
    | .error _ => []

/-- Detaches all handlers and attaches new ones. The verbosity that was in force stays when the
files cannot be opened. -/
def make (journal : Journal) (verbosity : Verbosity) (files : Except String (List Handler)) :
    Journal where
  verbosity? :=
    match files with
    | .ok _ => some verbosity
    | .error _ => journal.verbosity?
  handlers := attach verbosity files

/-- The journal in force, which is a new one of minimal verbosity if none was set. -/
def inForce (journal : Journal) : Journal :=
  match journal.verbosity? with
  | some _ => journal
  | none => journal.make .minimal (.ok [])

/-- Sets the verbosity. The handlers are rebuilt, without a file, when there was no verbosity
or when silence begins or ends. -/
def setVerbosity (journal : Journal) (verbosity : Verbosity) : Journal :=
  match journal.verbosity? with
  | none => journal.make verbosity (.ok [])
  | some current =>
    if (current = .silent) ↔ (verbosity = .silent) then
      { journal with verbosity? := some verbosity }
    else journal.make verbosity (.ok [])

/-- The journal in force reports messages of this severity. -/
def admits (journal : Journal) (severity : Severity) : Bool :=
  match journal.verbosity? with
  | some verbosity => verbosity.admits severity
  | none => false

/-- The lines that a message causes. -/
def deliveries (journal : Journal) (message : Message) : List Delivery :=
  if journal.inForce.admits message.severity then message.deliveries journal.inForce.handlers
  else []

/-- Reports messages in order. The journal is in force afterwards, if there were any. -/
def report (journal : Journal) (messages : List Message) : Journal × List Delivery :=
  (if messages.isEmpty then journal else journal.inForce,
    messages.flatMap journal.deliveries)

/-- What can be asked of the journal. A configuration is asked for at a moment, and with the path
of its file or without. -/
inductive Call where
  | access
  | setVerbosity (verbosity : Verbosity)
  | configure (moment : Moment) (verbosity : Verbosity) (toFile : Bool) (path? : Option String)
  | report (message : Message)

/-- What a call does: the state that it leaves behind, the lines that it causes, and the error
with which it fails, if it does. -/
structure Answer (State : Type) where
  state : State
  lines : List Delivery
  refusal? : Option String

/-- The answer of a configuration, which causes no lines. -/
def Answer.ofFiles {State : Type} (state : State) (files : Except String (List Handler)) :
    Answer State where
  state := state
  lines := []
  refusal? :=
    match files with
    | .ok _ => none
    | .error refusal => some refusal

/-- The answer to a call. -/
def answer (journal : Journal) : Call → Answer Journal
  | .access => ⟨journal.inForce, [], none⟩
  | .setVerbosity verbosity => ⟨journal.setVerbosity verbosity, [], none⟩
  | .configure moment verbosity toFile path? =>
    let files := moment.files toFile path?
    .ofFiles (journal.make verbosity files) files
  | .report message =>
    let (state, lines) := journal.report [message]
    ⟨state, lines, none⟩

/-- The journal after calls in order, whether they fail or not. -/
def after (journal : Journal) (calls : List Call) : Journal :=
  calls.foldl (fun journal call => (journal.answer call).state) journal

end Journal

/-- A loss is a warning, the end of a reading is a detail, and all else is for debugging. -/
def Reading.Notice.toMessage (notice : Reading.Notice) : Message :=
  match notice with
  | .starved _ | .dropped _ => ⟨.warning, notice.message⟩
  | .finished .. => ⟨.detail, notice.message⟩
  | .unknownToken _ | .refused .. => ⟨.debug, notice.message⟩

end Formulas

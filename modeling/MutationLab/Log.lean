import MutationLab.Text.Fragment

/-! # Logs

Messages of four levels. A log counts its warnings and errors and, when it captures,
also keeps every message in order. -/

namespace MutationLab

/-- How grave a message is. -/
inductive Level where
  /-- Detail. -/
  | debug
  /-- Progress. -/
  | info
  /-- A problem that the run survives. -/
  | warning
  /-- A stage failed on some input. -/
  | error
  deriving DecidableEq, Repr

/-- The name of a level. -/
def Level.name : Level → String
  | debug => "debug"
  | info => "info"
  | warning => "warning"
  | error => "error"

/-- A message and its level. -/
structure Message where
  level : Level
  text : String
  deriving DecidableEq, Repr

/-- The messages of one run. -/
structure Log where
  capturing : Bool := true
  /-- The captured messages, latest first. -/
  latest : List Message := []
  warnings : Nat := 0
  errors : Nat := 0
  deriving DecidableEq, Repr

namespace Log

/-- The captured messages, oldest first. -/
def messages (log : Log) : List Message := log.latest.reverse

/-- Keep a message if the log captures. -/
def capture (log : Log) (m : Message) : Log :=
  if log.capturing then { log with latest := m :: log.latest } else log

/-- Take a message. -/
def add (log : Log) (m : Message) : Log :=
  let log := match m.level with
    | .warning => { log with warnings := log.warnings + 1 }
    | .error => { log with errors := log.errors + 1 }
    | .debug | .info => log
  log.capture m

/-- Take several messages in order. -/
def addAll (log : Log) (ms : List Message) : Log := ms.foldl add log

/-- Take a detail. -/
def debug (log : Log) (text : String) : Log := log.add ⟨.debug, text⟩

/-- Take a note of progress. -/
def info (log : Log) (text : String) : Log := log.add ⟨.info, text⟩

/-- Take a warning. -/
def warning (log : Log) (text : String) : Log := log.add ⟨.warning, text⟩

/-- Take an error. -/
def error (log : Log) (text : String) : Log := log.add ⟨.error, text⟩

/-- Take the progress of a stage; only its completion is kept. -/
def progress (log : Log) (label : String) (done total : Nat) : Log :=
  if done = total then log.capture ⟨.debug, s!"{label}: {done}/{total}"⟩ else log

/-- Whether a captured message of a level holds a fragment. -/
def contains (log : Log) (level : Level) (fragment : String) : Bool :=
  log.messages.any fun m => m.level = level && Text.holds m.text fragment

@[simp] theorem messages_capture (log : Log) (m : Message) :
    (log.capture m).messages = if log.capturing then log.messages ++ [m] else log.messages := by
  by_cases h : log.capturing <;> simp [capture, messages, h]

/-! Only a message of that level counts as an error. -/

@[simp] theorem errors_capture (log : Log) (m : Message) :
    (log.capture m).errors = log.errors := by
  rw [capture]
  split <;> rfl

theorem errors_add (log : Log) (m : Message) :
    (log.add m).errors = if m.level = .error then log.errors + 1 else log.errors := by
  obtain ⟨level, text⟩ := m
  cases level <;> simp [add]

@[simp] theorem errors_debug (log : Log) (text : String) :
    (log.debug text).errors = log.errors := by
  simp [debug, errors_add]

@[simp] theorem errors_progress (log : Log) (label : String) (done total : Nat) :
    (log.progress label done total).errors = log.errors := by
  rw [progress]
  split
  · exact errors_capture log _
  · rfl

theorem errors_addAll (log : Log) (ms : List Message) :
    (log.addAll ms).errors = log.errors + ms.countP (·.level = .error) := by
  induction ms generalizing log with
  | nil => rfl
  | cons m ms ih =>
    rw [addAll, List.foldl_cons, ← addAll, ih, errors_add, List.countP_cons]
    by_cases h : m.level = .error
    · simp only [h, if_true, decide_true]
      omega
    · simp [h]

end Log

end MutationLab

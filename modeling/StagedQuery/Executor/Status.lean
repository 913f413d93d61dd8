import StagedQuery.Json.Decode

/-!
# Job status and log entries

A stage job waits, runs, and ends in one of two terminal statuses. Executors keep a log
of what happens to them; each entry has a time, a level and a message.
-/

namespace StagedQuery

/-- Where a stage job stands. -/
inductive JobStatus
  /-- Not started. -/
  | todo
  | running
  /-- Finished, with every output delivered. -/
  | succeed
  /-- Failed. -/
  | error
  deriving DecidableEq, Repr, Inhabited

namespace JobStatus

/-- A terminal status never changes again. -/
def isTerminal : JobStatus → Bool
  | succeed | error => true
  | todo | running => false

/-- A status as shown to people. -/
def display : JobStatus → String
  | todo => "TODO"
  | running => "RUNNING"
  | succeed => "SUCCEED"
  | error => "ERROR"

/-- The name of a status in messages. -/
def name : JobStatus → String
  | todo => "Todo"
  | running => "Running"
  | succeed => "Succeed"
  | error => "Error"

/-- A status as JSON. -/
def toJson (s : JobStatus) : Json := .string s.name

/-- Read a status. -/
def decoder : Json.Decoder JobStatus :=
  Json.oneOf ([todo, running, succeed, error].map fun s => (s.name, s))

end JobStatus

/-- How serious a log entry is. -/
inductive LogLevel
  | info | warn | error
  deriving DecidableEq, Repr, Inhabited

namespace LogLevel

/-- The name of a level. -/
def name : LogLevel → String
  | info => "Info"
  | warn => "Warn"
  | error => "Error"

/-- A level as JSON. -/
def toJson (l : LogLevel) : Json := .string l.name

/-- Read a level. -/
def decoder : Json.Decoder LogLevel :=
  Json.oneOf ([info, warn, error].map fun l => (l.name, l))

end LogLevel

/-- One message of a log. -/
structure LogEntry where
  /-- Milliseconds since the epoch. -/
  time : Nat
  level : LogLevel
  message : String
  deriving DecidableEq, Repr, Inhabited

namespace LogEntry

/-- A log entry as JSON. -/
def toJson (e : LogEntry) : Json :=
  .object [("timestamp_ms", .integer e.time), ("level", e.level.toJson),
    ("message", .string e.message)]

/-- Read a log entry. -/
def decoder : Json.Decoder LogEntry := fun scope json => do
  let fields ← Json.fields? ["timestamp_ms", "level", "message"] json
  let scope ← scope.enter?
  let time ← Json.field Json.natural scope fields 0
  let level ← Json.field LogLevel.decoder scope fields 1
  let message ← Json.field Json.text scope fields 2
  some { time, level, message }

end LogEntry

end StagedQuery

import StagedQuery.Executor.State
import StagedQuery.Job.StageJob

/-!
# Reports

An executor reports its status and the log entries that it has not reported yet. The
reporter counts the entries that were delivered: entries of a report that was lost are
reported again. The coordinator keeps one `JobReport` for each executor and folds every
report into it.
-/

namespace StagedQuery

/-- A report of an executor. -/
structure Heartbeat where
  location : Location
  status : JobStatus
  taskId : Identifier
  /-- The log entries since the report before. -/
  logs : List LogEntry
  deriving DecidableEq, Repr

namespace Heartbeat

/-- A report as JSON. -/
def toJson (h : Heartbeat) : Json :=
  .object [("location", h.location.toJson), ("status", h.status.toJson),
    ("task_id", h.taskId.toJson), ("logs", .array (h.logs.map LogEntry.toJson))]

/-- Read a report. -/
def decoder : Json.Decoder Heartbeat := fun scope json => do
  let fields ← Json.fields? ["location", "status", "task_id", "logs"] json
  let scope ← scope.enter?
  let location ← Json.field Location.decoder scope fields 0
  let status ← Json.field JobStatus.decoder scope fields 1
  let taskId ← Json.field Identifier.decoder scope fields 2
  let logs ← Json.field (Json.list LogEntry.decoder) scope fields 3
  some { location, status, taskId, logs }

end Heartbeat

/-! ### The executor's side -/

/-- The reporter of an executor. -/
structure Reporter where
  location : Location
  taskId : Identifier
  /-- The number of log entries that were delivered. -/
  cursor : Nat := 0
  deriving DecidableEq, Repr

namespace Reporter

/-- What a report says about a state. -/
def heartbeat (r : Reporter) (snapshot : Snapshot) : Heartbeat where
  location := r.location
  status := snapshot.status
  taskId := r.taskId
  logs := snapshot.logs

/-- A report of a snapshot was delivered. -/
def delivered (r : Reporter) (snapshot : Snapshot) (s : ExecutorState) :
    Reporter × ExecutorState :=
  ({ r with cursor := r.cursor + snapshot.logs.length }, s.markReported snapshot.version)

/-- Take a snapshot of a state and deliver a report of it. -/
def report (r : Reporter) (s : ExecutorState) : Heartbeat × Reporter × ExecutorState :=
  let snapshot := s.snapshot r.cursor
  (r.heartbeat snapshot, r.delivered snapshot s)

end Reporter

/-! ### The coordinator's side -/

/-- What is known of an executor. -/
structure JobReport where
  location : Location
  taskId : Identifier
  status : JobStatus
  /-- When the last report came in, or the job was dispatched. -/
  lastSeen : Nat
  /-- Every log entry that was reported. -/
  logs : List LogEntry
  deriving DecidableEq, Repr

namespace JobReport

/-- Whether an executor that has not ended is silent for too long. -/
def isStale (r : JobReport) (now timeout : Nat) : Bool :=
  !r.status.isTerminal && timeout < now - r.lastSeen

/-- The last error in the log. -/
def lastError? (r : JobReport) : Option String :=
  (r.logs.reverse.find? (·.level == .error)).map (·.message)

/-- The report of an executor that was not heard of yet. -/
def initial (location : Location) (taskId : Identifier) (now : Nat) : JobReport where
  location
  taskId
  status := .todo
  lastSeen := now
  logs := []

/-- Fold a heartbeat into a report. -/
def fold (r : JobReport) (now : Nat) (h : Heartbeat) : JobReport where
  location := h.location
  taskId := h.taskId
  status := h.status
  lastSeen := now
  logs := r.logs ++ h.logs

end JobReport

end StagedQuery

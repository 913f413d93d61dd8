import StagedQuery.Executor.Status

/-!
# The state of an executor

The state of an executor is its status and its log. The status is a latch: it moves
forward only, and a terminal status stays. The log only grows. Every change has a version,
and the state remembers the last version that was reported, so that it is *dirty* exactly
when something changed since.
-/

namespace StagedQuery

/-- The status and the log of an executor. -/
structure ExecutorState where
  status : JobStatus := .todo
  logs : List LogEntry := []
  /-- The number of changes. -/
  version : Nat := 0
  /-- The last version that was reported. -/
  reported : Nat := 0
  deriving DecidableEq, Repr

/-- What a report takes from a state. -/
structure Snapshot where
  status : JobStatus
  logs : List LogEntry
  version : Nat
  deriving DecidableEq, Repr

namespace ExecutorState

/-- Count a change. -/
def touch (s : ExecutorState) : ExecutorState := { s with version := s.version + 1 }

/-- Append a message to the log. -/
def log (s : ExecutorState) (now : Nat) (level : LogLevel) (message : String) : ExecutorState :=
  touch { s with logs := s.logs ++ [{ time := now, level, message }] }

/-- Start running, from the first status only. -/
def start (s : ExecutorState) : Bool × ExecutorState :=
  if s.status = .todo then (true, touch { s with status := .running }) else (false, s)

/-- Succeed, unless a terminal status is latched. -/
def succeed (s : ExecutorState) (now : Nat) : Bool × ExecutorState :=
  if s.status.isTerminal then
    (false, s.log now .warn s!"success reported after {s.status.display}")
  else (true, touch { s with status := .succeed })

/-- Log an error, and fail unless a terminal status is latched. -/
def fail (s : ExecutorState) (now : Nat) (message : String) : Bool × ExecutorState :=
  let s := s.log now .error message
  if s.status.isTerminal then (false, s) else (true, touch { s with status := .error })

/-- Whether something changed since the last report. -/
def isDirty (s : ExecutorState) : Bool := s.version != s.reported

/-- The status, and the log from an entry on. -/
def snapshot (s : ExecutorState) (cursor : Nat) : Snapshot where
  status := s.status
  logs := s.logs.drop cursor
  version := s.version

/-- A version was reported. -/
def markReported (s : ExecutorState) (version : Nat) : ExecutorState :=
  { s with reported := max s.reported version }

end ExecutorState

end StagedQuery

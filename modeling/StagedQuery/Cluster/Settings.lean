import StagedQuery.Executor.Settings

/-!
# Settings of a cluster

The settings of the coordinator and of the connections between its members. Whatever is
left out has a default.
-/

namespace StagedQuery

/-- The settings of a coordinator. All times are in milliseconds. -/
structure CoordinatorSettings where
  /-- A job that has not ended and is silent for longer has failed. -/
  heartbeatTimeout : Nat := 15000
  /-- How parallel a query is unless it says so itself. -/
  defaultParallelism : Nat := 4
  /-- How often the reports are looked at while a result is read. -/
  statusPollInterval : Nat := 100
  deriving DecidableEq, Repr

namespace CoordinatorSettings

/-- The settings as JSON. -/
def toJson (c : CoordinatorSettings) : Json :=
  .object [("heartbeat_timeout_ms", .integer c.heartbeatTimeout),
    ("default_parallelism", .integer c.defaultParallelism),
    ("status_poll_interval_ms", .integer c.statusPollInterval)]

/-- Read the settings. -/
def decoder : Json.Decoder CoordinatorSettings := fun scope json => do
  let fields ← Json.fields?
    ["heartbeat_timeout_ms", "default_parallelism", "status_poll_interval_ms"] json
  let scope ← scope.enter?
  let default : CoordinatorSettings := {}
  let heartbeatTimeout ← Json.fieldOr default.heartbeatTimeout Json.natural scope fields 0
  let defaultParallelism ← Json.fieldOr default.defaultParallelism Json.natural scope fields 1
  let statusPollInterval ← Json.fieldOr default.statusPollInterval Json.natural scope fields 2
  some { heartbeatTimeout, defaultParallelism, statusPollInterval }

end CoordinatorSettings

/-- The settings of connections. -/
structure ConnectionSettings where
  /-- The longest request or answer that is accepted. -/
  maxMessageSize : Nat := 67108864
  /-- Whether small messages are sent at once. -/
  noDelay : Bool := true
  deriving DecidableEq, Repr

namespace ConnectionSettings

/-- The settings as JSON. -/
def toJson (c : ConnectionSettings) : Json :=
  .object [("max_message_size", .integer c.maxMessageSize), ("tcp_nodelay", .bool c.noDelay)]

/-- Read the settings. -/
def decoder : Json.Decoder ConnectionSettings := fun scope json => do
  let fields ← Json.fields? ["max_message_size", "tcp_nodelay"] json
  let scope ← scope.enter?
  let default : ConnectionSettings := {}
  let maxMessageSize ← Json.fieldOr default.maxMessageSize Json.natural scope fields 0
  let noDelay ← Json.fieldOr default.noDelay Json.boolean scope fields 1
  some { maxMessageSize, noDelay }

end ConnectionSettings

end StagedQuery

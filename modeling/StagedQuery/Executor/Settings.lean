import StagedQuery.Identifier

/-!
# Settings of a query

The settings that travel with every job of a query. Whatever is left out has a default;
the default of the query's identifier is a fresh one.
-/

namespace StagedQuery

/-- How often an executor reports. All times are in milliseconds. -/
structure ReportSettings where
  /-- How often it is checked whether something changed. -/
  fastInterval : Nat := 100
  /-- How often a report is sent whether or not something changed. -/
  interval : Nat := 3000
  /-- How long to wait before a broken stream is replaced. -/
  retryBackoff : Nat := 1000
  deriving DecidableEq, Repr

namespace ReportSettings

/-- The settings as JSON. -/
def toJson (c : ReportSettings) : Json :=
  .object [("fast_interval_ms", .integer c.fastInterval), ("interval_ms", .integer c.interval),
    ("retry_backoff_ms", .integer c.retryBackoff)]

/-- Read the settings. -/
def decoder : Json.Decoder ReportSettings := fun scope json => do
  let fields ← Json.fields? ["fast_interval_ms", "interval_ms", "retry_backoff_ms"] json
  let scope ← scope.enter?
  let default : ReportSettings := {}
  let fastInterval ← Json.fieldOr default.fastInterval Json.natural scope fields 0
  let interval ← Json.fieldOr default.interval Json.natural scope fields 1
  let retryBackoff ← Json.fieldOr default.retryBackoff Json.natural scope fields 2
  some { fastInterval, interval, retryBackoff }

end ReportSettings

/-- The settings that travel with every job. -/
structure QuerySettings where
  /-- The query that the job belongs to. -/
  queryId : Identifier
  /-- The number of rows at which a batch is written. -/
  flushThreshold : Nat := 8192
  /-- The bytes that an output holds until they are read. -/
  pipeCapacity : Nat := 65536
  /-- The longest message that is accepted. -/
  maxMessageSize : Nat := 67108864
  /-- Where to report to, if anywhere. -/
  coordinator : Option String := none
  heartbeat : ReportSettings := {}
  deriving DecidableEq, Repr

namespace QuerySettings

/-- The settings as JSON. -/
def toJson (c : QuerySettings) : Json :=
  .object [("query_id", c.queryId.toJson), ("flush_threshold", .integer c.flushThreshold),
    ("pipe_capacity", .integer c.pipeCapacity), ("max_message_size", .integer c.maxMessageSize),
    ("coordinator", (c.coordinator.map Json.string).getD .null),
    ("heartbeat", c.heartbeat.toJson)]

/-- Read the settings; `fresh` identifies a query that has no identifier yet. -/
def decoder (fresh : Identifier) : Json.Decoder QuerySettings := fun scope json => do
  let fields ← Json.fields? ["query_id", "flush_threshold", "pipe_capacity", "max_message_size",
    "coordinator", "heartbeat"] json
  let scope ← scope.enter?
  let default : QuerySettings := { queryId := fresh }
  let queryId ← Json.fieldOr fresh Identifier.decoder scope fields 0
  let flushThreshold ← Json.fieldOr default.flushThreshold Json.natural scope fields 1
  let pipeCapacity ← Json.fieldOr default.pipeCapacity Json.natural scope fields 2
  let maxMessageSize ← Json.fieldOr default.maxMessageSize Json.natural scope fields 3
  let coordinator ← Json.fieldOr none (Json.optional Json.text) scope fields 4
  let heartbeat ← Json.fieldOr default.heartbeat ReportSettings.decoder scope fields 5
  some { queryId, flushThreshold, pipeCapacity, maxMessageSize, coordinator, heartbeat }

end QuerySettings

end StagedQuery

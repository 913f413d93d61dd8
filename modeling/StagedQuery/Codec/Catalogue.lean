import StagedQuery.Cluster.Control
import StagedQuery.Cluster.Report
import StagedQuery.Cluster.SettingsFile
import StagedQuery.Plan.Graph
import StagedQuery.Plan.Node

/-!
# The catalogue of JSON forms

Every type that has a JSON form, by name. A text is put into the standard form of a type by
reading it as that type and writing it again: members in declaration order, nothing left
out, nothing unknown.
-/

namespace StagedQuery

/-- A type that has a JSON form. -/
class Coded (α : Type) where
  decoder : Json.Decoder α
  toJson : α → Json

instance : Coded DataType := ⟨DataType.decoder, DataType.toJson⟩

instance : Coded Value := ⟨Value.decoder, Value.toJson⟩

instance : Coded Field := ⟨Field.decoder, Field.toJson⟩

instance : Coded Schema := ⟨Schema.decoder, Schema.toJson⟩

instance : Coded Location := ⟨Location.decoder, Location.toJson⟩

instance : Coded WorkerInfo := ⟨WorkerInfo.decoder, WorkerInfo.toJson⟩

instance : Coded JobStatus := ⟨JobStatus.decoder, JobStatus.toJson⟩

instance : Coded LogLevel := ⟨LogLevel.decoder, LogLevel.toJson⟩

instance : Coded LogEntry := ⟨LogEntry.decoder, LogEntry.toJson⟩

instance : Coded Partition := ⟨Partition.decoder, Partition.toJson⟩

instance : Coded SortKey := ⟨SortKey.decoder, SortKey.toJson⟩

instance : Coded JobTag := ⟨JobTag.decoder, JobTag.toJson⟩

instance : Coded JobKind := ⟨JobKind.decoder, JobKind.toJson⟩

instance : Coded StageJob := ⟨StageJob.decoder, StageJob.toJson⟩

instance : Coded CompareOp := ⟨CompareOp.decoder, CompareOp.toJson⟩

instance : Coded Predicate := ⟨Predicate.decoder, Predicate.toJson⟩

instance : Coded PartitionFilter := ⟨PartitionFilter.decoder, PartitionFilter.toJson⟩

instance : Coded PlanKind := ⟨PlanKind.decoder, PlanKind.toJson⟩

instance : Coded PlanNode := ⟨PlanNode.decoder, PlanNode.toJson⟩

instance : Coded StageGraph := ⟨StageGraph.decoder, StageGraph.toJson⟩

instance : Coded ReportSettings := ⟨ReportSettings.decoder, ReportSettings.toJson⟩

instance : Coded CoordinatorSettings := ⟨CoordinatorSettings.decoder, CoordinatorSettings.toJson⟩

instance : Coded ConnectionSettings := ⟨ConnectionSettings.decoder, ConnectionSettings.toJson⟩

instance : Coded ControlResponse := ⟨ControlResponse.decoder, ControlResponse.toJson⟩

instance : Coded Heartbeat := ⟨Heartbeat.decoder, Heartbeat.toJson⟩

instance : Coded Identifier := ⟨Identifier.decoder, Identifier.toJson⟩

/-- A scanned table that stands on its own. -/
instance : Coded TableScan where
  decoder := fun scope json => do TableScan.ofFields (← scope.enter?) json
  toJson := fun table => .object table.members

namespace Catalogue

/-- Read a value, and write it again. -/
def form {α : Type} (decoder : Json.Decoder α) (toJson : α → Json) : Json.Decoder Json :=
  fun scope json => (decoder scope json).map toJson

/-- Read a value of a type, and write it again. -/
def standard (α : Type) [Coded α] : Json.Decoder Json :=
  form (Coded.decoder : Json.Decoder α) Coded.toJson

/-- The forms by the names of their types; `fresh` identifies a query without identifier. -/
def forms (fresh : Identifier) : List (String × Json.Decoder Json) :=
  [("DataType", standard DataType),
    ("Value", standard Value),
    ("Field", standard Field),
    ("Schema", standard Schema),
    ("Location", standard Location),
    ("WorkerInfo", standard WorkerInfo),
    ("JobStatus", standard JobStatus),
    ("LogLevel", standard LogLevel),
    ("LogEntry", standard LogEntry),
    ("PartitionInfo", standard Partition),
    ("SortKey", standard SortKey),
    ("JobTag", standard JobTag),
    ("JobKind", standard JobKind),
    ("StageJob", standard StageJob),
    ("CompareOp", standard CompareOp),
    ("PartitionPredicate", standard Predicate),
    ("PartitionFilter", standard PartitionFilter),
    ("ScanNode", standard TableScan),
    ("PlanNodeKind", standard PlanKind),
    ("PlanNode", standard PlanNode),
    ("StageGraph", standard StageGraph),
    ("HeartbeatConfig", standard ReportSettings),
    ("RuntimeConfig", form (QuerySettings.decoder fresh) QuerySettings.toJson),
    ("ClusterConfig", standard CoordinatorSettings),
    ("NetworkConfig", standard ConnectionSettings),
    ("ControlRequest", form (ControlRequest.decoder fresh) ControlRequest.toJson),
    ("ControlResponse", standard ControlResponse),
    ("Heartbeat", standard Heartbeat),
    ("Config", form (Settings.decoder fresh) Settings.toJson),
    ("TaskId", standard Identifier),
    ("QueryId", standard Identifier)]

/-- The standard form of a text, read as the named type. -/
def standardForm? (fresh : Identifier) (type text : String) : Option String := do
  let decoder ← (forms fresh).lookup type
  (Json.decodeText decoder text).map Json.render

end Catalogue

end StagedQuery

import StagedQuery.Job.StageJob
import StagedQuery.Plan.Filter

/-!
# Logical plans

A logical plan is a tree of nodes. Each node has a kind, its inputs, the schema of the
rows it yields, and a body for its operator.
-/

namespace StagedQuery

/-- A table to scan. A table without partition columns has files; one with partition
columns has partitions, of which the filter keeps some. -/
structure TableScan where
  table : String
  partitionColumns : List String := []
  partitions : List Partition := []
  files : List String := []
  filter : Option PartitionFilter := none
  deriving DecidableEq, Repr, Inhabited

/-- What a node of a plan does. -/
inductive PlanKind
  | scan (table : TableScan)
  | select (distinct : Bool)
  | filter
  | groupBy
  | aggregateLocal
  | aggregateGlobal
  | distinctLocal
  | distinctGlobal
  | orderBy (keys : List SortKey)
  | join
  | hashJoin (leftKeys rightKeys : List Nat)
  | union
  | limit (count : Nat)
  | «show»
  | insert
  deriving DecidableEq, Repr, Inhabited

/-- A node of a plan, with everything below it. -/
structure PlanNode where
  kind : PlanKind
  inputs : List PlanNode
  schema : Schema
  payload : Bytes
  deriving Repr

namespace TableScan

/-- The members of a scanned table. -/
def members (s : TableScan) : List (String × Json) :=
  [("table", .string s.table),
    ("partition_columns", .array (s.partitionColumns.map .string)),
    ("partitions", .array (s.partitions.map Partition.toJson)),
    ("files", .array (s.files.map .string)),
    ("partition_filter", (s.filter.map PartitionFilter.toJson).getD .null)]

/-- Read the fields of a scanned table; all but the table's name may be left out. -/
def ofFields : Json.Decoder TableScan := fun scope json => do
  let fields ← Json.fields?
    ["table", "partition_columns", "partitions", "files", "partition_filter"] json
  let table ← Json.field Json.text scope fields 0
  let partitionColumns ← Json.fieldOr [] (Json.list Json.text) scope fields 1
  let partitions ← Json.fieldOr [] (Json.list Partition.decoder) scope fields 2
  let files ← Json.fieldOr [] (Json.list Json.text) scope fields 3
  let filter ← Json.fieldOr none (Json.optional PartitionFilter.decoder) scope fields 4
  some { table, partitionColumns, partitions, files, filter }

end TableScan

namespace PlanKind

/-- The number of inputs that a kind takes. -/
def arity : PlanKind → Nat
  | scan _ => 0
  | join | hashJoin .. | union => 2
  | _ => 1

/-- The tag of a kind. -/
def tag : PlanKind → String
  | scan _ => "scan"
  | select _ => "select"
  | filter => "filter"
  | groupBy => "group_by"
  | aggregateLocal => "aggregate_local"
  | aggregateGlobal => "aggregate_global"
  | distinctLocal => "distinct_local"
  | distinctGlobal => "distinct_global"
  | orderBy _ => "order_by"
  | join => "join"
  | hashJoin .. => "hash_join"
  | union => "union"
  | limit _ => "limit"
  | «show» => "show"
  | insert => "insert"

/-- The parameters of a kind as members of an object. -/
def parameters : PlanKind → List (String × Json)
  | scan table => table.members
  | select distinct => [("distinct", .bool distinct)]
  | orderBy keys => [("keys", .array (keys.map SortKey.toJson))]
  | hashJoin leftKeys rightKeys =>
    [("left_keys", JobKind.columnsJson leftKeys), ("right_keys", JobKind.columnsJson rightKeys)]
  | limit count => [("count", .integer count)]
  | _ => []

/-- A kind as JSON: its tag and its parameters in one object. -/
def toJson (k : PlanKind) : Json := .object (("type", .string k.tag) :: k.parameters)

/-- The kinds without parameters. -/
def plain : List PlanKind :=
  [filter, groupBy, aggregateLocal, aggregateGlobal, distinctLocal, distinctGlobal, join, union,
    «show», insert]

/-- Read the parameters of a kind with the given tag. -/
def ofParameters (tag : String) : Json.Decoder PlanKind := fun scope json =>
  match tag with
  | "scan" => (TableScan.ofFields scope json).map scan
  | "select" => do
    let fields ← Json.fields? ["distinct"] json
    (Json.fieldOr false Json.boolean scope fields 0).map select
  | "order_by" => do
    let fields ← Json.fields? ["keys"] json
    (Json.field (Json.list SortKey.decoder) scope fields 0).map orderBy
  | "hash_join" => do
    let fields ← Json.fields? ["left_keys", "right_keys"] json
    let leftKeys ← Json.field (Json.list Json.natural) scope fields 0
    let rightKeys ← Json.field (Json.list Json.natural) scope fields 1
    some (hashJoin leftKeys rightKeys)
  | "limit" => do
    let fields ← Json.fields? ["count"] json
    (Json.field Json.natural scope fields 0).map limit
  | _ => if Json.isBlank json then plain.find? (·.tag == tag) else none

/-- Read a kind. -/
def decoder : Json.Decoder PlanKind := fun scope json => do
  let (tag, scope, rest) ← Json.tagged? "type" scope json
  ofParameters tag scope rest

end PlanKind

namespace PlanNode

mutual

/-- A plan as JSON. -/
def toJson : PlanNode → Json
  | ⟨kind, inputs, schema, payload⟩ =>
    .object [("kind", kind.toJson), ("inputs", .array (inputsJson inputs)),
      ("schema", schema.toJson), ("payload", .array (payload.map fun b => .integer b.toNat))]

/-- The inputs of a node as JSON. -/
def inputsJson : List PlanNode → List Json
  | [] => []
  | node :: nodes => toJson node :: inputsJson nodes

end

/-- Read a plan. A node and the array of its inputs take two levels of nesting. -/
def decodeWithin : Nat → Json → Option PlanNode
  | depth + 2, json => do
    let fields ← Json.fields? ["kind", "inputs", "schema", "payload"] json
    let scope : Json.Scope := ⟨depth + 1, false⟩
    let kind ← Json.field PlanKind.decoder scope fields 0
    let inputs ← match fields.getD 1 none with
      | some (Json.array items) => if depth = 0 then none else items.mapM (decodeWithin depth)
      | some _ => none
      | none => some []
    let schema ← Json.field Schema.decoder scope fields 2
    let payload ← Json.fieldOr [] (Json.list StageJob.byteDecoder) scope fields 3
    some { kind, inputs, schema, payload }
  | _, _ => none

/-- Read a plan. -/
def decoder : Json.Decoder PlanNode := fun scope json => decodeWithin scope.depth json

end PlanNode

end StagedQuery

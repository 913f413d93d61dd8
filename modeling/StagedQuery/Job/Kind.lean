import StagedQuery.Codec.Data

/-!
# Kinds of stage jobs

What a stage job does, with the parameters that its operator needs. Column indices refer
to the value columns of the job's input. The tag of a kind is the kind without its
parameters; operators are registered by tag.
-/

namespace StagedQuery

/-- A partition of a table: the values of the partition columns, and its files. -/
structure Partition where
  values : List Value
  files : List String
  deriving DecidableEq, Repr, Inhabited

/-- One key of a sort order. -/
structure SortKey where
  column : Nat
  ascending : Bool
  deriving DecidableEq, Repr, Inhabited

/-- The kinds of jobs, without parameters. -/
inductive JobTag
  | scan | select | filter | groupBy | aggregateLocal | aggregateGlobal | «show» | insert
  | shuffle | duplicate | balance | union | aggregate | join | hashJoin
  | orderByLocal | orderByGlobal | distinctLocal | distinctGlobal | limit
  deriving DecidableEq, Repr, Inhabited

/-- What a stage job does. -/
inductive JobKind
  /-- Read a part of a table: some of its partitions, or some of its files. -/
  | scan (table : String) (partitions : List Partition) (files : List String)
  | select
  | filter
  | groupBy
  | aggregateLocal
  | aggregateGlobal
  | «show»
  | insert
  /-- Send each row to the output that the hash of its key columns selects. -/
  | shuffle (keyColumns : List Nat)
  /-- Send each row to every output. -/
  | duplicate
  /-- Send the rows to the outputs in turn. -/
  | balance
  | union
  /-- Put the inputs one after the other. -/
  | aggregate
  /-- Nested-loop join; the first `leftInputs` inputs are the left side. -/
  | join (leftInputs : Nat)
  /-- Hash join of shuffled inputs; the first `leftInputs` inputs are the left side. -/
  | hashJoin (leftInputs : Nat) (leftKeys rightKeys : List Nat)
  | orderByLocal (keys : List SortKey)
  /-- Merge sorted inputs. -/
  | orderByGlobal (keys : List SortKey)
  | distinctLocal
  | distinctGlobal
  | limit (count : Nat)
  deriving DecidableEq, Repr, Inhabited

namespace JobTag

/-- Every tag, in declaration order. -/
def all : List JobTag :=
  [scan, select, filter, groupBy, aggregateLocal, aggregateGlobal, «show», insert,
    shuffle, duplicate, balance, union, aggregate, join, hashJoin,
    orderByLocal, orderByGlobal, distinctLocal, distinctGlobal, limit]

/-- A tag in messages to people. -/
def display : JobTag → String
  | scan => "scan"
  | select => "select"
  | filter => "filter"
  | groupBy => "group-by"
  | aggregateLocal => "aggregate-local"
  | aggregateGlobal => "aggregate-global"
  | «show» => "show"
  | insert => "insert"
  | shuffle => "shuffle"
  | duplicate => "duplicate"
  | balance => "balance"
  | union => "union"
  | aggregate => "aggregate"
  | join => "join"
  | hashJoin => "hash-join"
  | orderByLocal => "order-by-local"
  | orderByGlobal => "order-by-global"
  | distinctLocal => "distinct-local"
  | distinctGlobal => "distinct-global"
  | limit => "limit"

/-- The name of a tag on its own. -/
def name : JobTag → String
  | scan => "Scan"
  | select => "Select"
  | filter => "Filter"
  | groupBy => "GroupBy"
  | aggregateLocal => "AggregateLocal"
  | aggregateGlobal => "AggregateGlobal"
  | «show» => "Show"
  | insert => "Insert"
  | shuffle => "Shuffle"
  | duplicate => "Duplicate"
  | balance => "Balance"
  | union => "Union"
  | aggregate => "Aggregate"
  | join => "Join"
  | hashJoin => "HashJoin"
  | orderByLocal => "OrderByLocal"
  | orderByGlobal => "OrderByGlobal"
  | distinctLocal => "DistinctLocal"
  | distinctGlobal => "DistinctGlobal"
  | limit => "Limit"

/-- The name of a tag in the description of a job. -/
def snakeName (t : JobTag) : String :=
  String.ofList (t.display.toList.map fun c => if c = '-' then '_' else c)

/-- A tag as JSON. -/
def toJson (t : JobTag) : Json := .string t.name

/-- Read a tag. -/
def decoder : Json.Decoder JobTag := Json.oneOf (all.map fun t => (t.name, t))

end JobTag

/-- The tag of a kind. -/
def JobKind.tag : JobKind → JobTag
  | scan .. => .scan
  | select => .select
  | filter => .filter
  | groupBy => .groupBy
  | aggregateLocal => .aggregateLocal
  | aggregateGlobal => .aggregateGlobal
  | «show» => .«show»
  | insert => .insert
  | shuffle _ => .shuffle
  | duplicate => .duplicate
  | balance => .balance
  | union => .union
  | aggregate => .aggregate
  | join _ => .join
  | hashJoin .. => .hashJoin
  | orderByLocal _ => .orderByLocal
  | orderByGlobal _ => .orderByGlobal
  | distinctLocal => .distinctLocal
  | distinctGlobal => .distinctGlobal
  | limit _ => .limit

namespace Partition

/-- A partition as JSON. -/
def toJson (p : Partition) : Json :=
  .object [("values", .array (p.values.map Value.toJson)), ("files", .array (p.files.map .string))]

/-- Read a partition. -/
def decoder : Json.Decoder Partition := fun scope json => do
  let fields ← Json.fields? ["values", "files"] json
  let scope ← scope.enter?
  let values ← Json.field (Json.list Value.decoder) scope fields 0
  let files ← Json.field (Json.list Json.text) scope fields 1
  some { values, files }

end Partition

namespace SortKey

/-- A sort key as JSON. -/
def toJson (k : SortKey) : Json :=
  .object [("column", .integer k.column), ("ascending", .bool k.ascending)]

/-- Read a sort key. -/
def decoder : Json.Decoder SortKey := fun scope json => do
  let fields ← Json.fields? ["column", "ascending"] json
  let scope ← scope.enter?
  let column ← Json.field Json.natural scope fields 0
  let ascending ← Json.field Json.boolean scope fields 1
  some { column, ascending }

end SortKey

namespace JobKind

/-- The columns of a list of indices as JSON. -/
def columnsJson (columns : List Nat) : Json := .array (columns.map fun (n : Nat) => .integer n)

/-- The parameters of a kind as members of an object. -/
def parameters : JobKind → List (String × Json)
  | scan table partitions files =>
    [("table", .string table), ("partitions", .array (partitions.map Partition.toJson)),
      ("files", .array (files.map .string))]
  | shuffle keyColumns => [("key_columns", columnsJson keyColumns)]
  | join leftInputs => [("left_inputs", .integer leftInputs)]
  | hashJoin leftInputs leftKeys rightKeys =>
    [("left_inputs", .integer leftInputs), ("left_keys", columnsJson leftKeys),
      ("right_keys", columnsJson rightKeys)]
  | orderByLocal keys => [("keys", .array (keys.map SortKey.toJson))]
  | orderByGlobal keys => [("keys", .array (keys.map SortKey.toJson))]
  | limit count => [("count", .integer count)]
  | _ => []

/-- A kind as JSON: its tag and its parameters in one object. -/
def toJson (k : JobKind) : Json :=
  .object (("kind", .string k.tag.snakeName) :: k.parameters)

/-- The kinds without parameters. -/
def plain : List JobKind :=
  [select, filter, groupBy, aggregateLocal, aggregateGlobal, «show», insert, duplicate, balance,
    union, aggregate, distinctLocal, distinctGlobal]

/-- Read the parameters of a kind with the given tag. -/
def ofParameters (tag : String) : Json.Decoder JobKind := fun scope json =>
  let columns : Json.Decoder (List Nat) := Json.list Json.natural
  let keys : Json.Decoder (List SortKey) := Json.list SortKey.decoder
  match tag with
  | "scan" => do
    let fields ← Json.fields? ["table", "partitions", "files"] json
    let table ← Json.field Json.text scope fields 0
    let partitions ← Json.field (Json.list Partition.decoder) scope fields 1
    let files ← Json.field (Json.list Json.text) scope fields 2
    some (scan table partitions files)
  | "shuffle" => do
    let fields ← Json.fields? ["key_columns"] json
    (Json.field columns scope fields 0).map shuffle
  | "join" => do
    let fields ← Json.fields? ["left_inputs"] json
    (Json.field Json.natural scope fields 0).map join
  | "hash_join" => do
    let fields ← Json.fields? ["left_inputs", "left_keys", "right_keys"] json
    let leftInputs ← Json.field Json.natural scope fields 0
    let leftKeys ← Json.field columns scope fields 1
    let rightKeys ← Json.field columns scope fields 2
    some (hashJoin leftInputs leftKeys rightKeys)
  | "order_by_local" => do
    let fields ← Json.fields? ["keys"] json
    (Json.field keys scope fields 0).map orderByLocal
  | "order_by_global" => do
    let fields ← Json.fields? ["keys"] json
    (Json.field keys scope fields 0).map orderByGlobal
  | "limit" => do
    let fields ← Json.fields? ["count"] json
    (Json.field Json.natural scope fields 0).map limit
  | _ =>
    if Json.isBlank json then plain.find? (·.tag.snakeName == tag) else none

/-- Read a kind. -/
def decoder : Json.Decoder JobKind := fun scope json => do
  let (tag, scope, rest) ← Json.tagged? "kind" scope json
  ofParameters tag scope rest

end JobKind

end StagedQuery

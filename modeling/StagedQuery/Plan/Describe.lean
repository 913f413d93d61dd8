import StagedQuery.Plan.Node
import StagedQuery.Text.Description

/-!
# Descriptions of plan nodes

A node with the wrong number of inputs is described in the error with its kind and all
parameters of the kind.
-/

namespace StagedQuery

/-- The description of a value. -/
def Value.describe : Value → String
  | null => "Null"
  | boolean b => Text.describeVariant "Boolean" (Text.describeBool b)
  | int32 n => Text.describeVariant "Int32" (toString n.toInt)
  | int64 n => Text.describeVariant "Int64" (toString n.toInt)
  | float32 bits => Text.describeVariant "Float32" (FloatNotation.described.single bits)
  | float64 bits => Text.describeVariant "Float64" (FloatNotation.described.double bits)
  | utf8 text => Text.describeVariant "Utf8" (Text.describe text)
  | date n => Text.describeVariant "Date" (toString n.toInt)
  | timestamp n => Text.describeVariant "Timestamp" (toString n.toInt)

/-- The description of a list of texts. -/
def describeTexts (texts : List String) : String := Text.describeList (texts.map Text.describe)

/-- The description of a list of column indices. -/
def describeColumns (columns : List Nat) : String := Text.describeList (columns.map toString)

/-- The description of a partition. -/
def Partition.describe (p : Partition) : String :=
  Text.describeRecord "PartitionInfo"
    [("values", Text.describeList (p.values.map Value.describe)), ("files", describeTexts p.files)]

/-- The description of a sort key. -/
def SortKey.describe (k : SortKey) : String :=
  Text.describeRecord "SortKey"
    [("column", toString k.column), ("ascending", Text.describeBool k.ascending)]

/-- The description of a predicate. -/
def Predicate.describe (p : Predicate) : String :=
  Text.describeRecord "PartitionPredicate"
    [("column", Text.describe p.column), ("op", p.op.name), ("value", p.value.describe)]

/-- The description of a partition filter. -/
def PartitionFilter.describe (f : PartitionFilter) : String :=
  Text.describeRecord "PartitionFilter"
    [("predicates", Text.describeList (f.predicates.map Predicate.describe))]

/-- The description of a scanned table. -/
def TableScan.describe (s : TableScan) : String :=
  Text.describeRecord "ScanNode"
    [("table", Text.describe s.table), ("partition_columns", describeTexts s.partitionColumns),
      ("partitions", Text.describeList (s.partitions.map Partition.describe)),
      ("files", describeTexts s.files),
      ("partition_filter", Text.describeOption (s.filter.map PartitionFilter.describe))]

/-- The description of a kind of node. -/
def PlanKind.describe : PlanKind → String
  | scan table => Text.describeVariant "Scan" table.describe
  | select distinct => Text.describeRecord "Select" [("distinct", Text.describeBool distinct)]
  | filter => "Filter"
  | groupBy => "GroupBy"
  | aggregateLocal => "AggregateLocal"
  | aggregateGlobal => "AggregateGlobal"
  | distinctLocal => "DistinctLocal"
  | distinctGlobal => "DistinctGlobal"
  | orderBy keys =>
    Text.describeRecord "OrderBy" [("keys", Text.describeList (keys.map SortKey.describe))]
  | join => "Join"
  | hashJoin leftKeys rightKeys =>
    Text.describeRecord "HashJoin"
      [("left_keys", describeColumns leftKeys), ("right_keys", describeColumns rightKeys)]
  | union => "Union"
  | limit count => Text.describeRecord "Limit" [("count", toString count)]
  | «show» => "Show"
  | insert => "Insert"

end StagedQuery

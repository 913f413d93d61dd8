import StagedQuery.Error

/-!
# Partition filters

A partition filter is a list of predicates on the values of partition columns, tried in
order. A predicate with an absent value on either side drops the partition at once; so
does one that does not hold. A predicate on an unknown column, or one that compares
values of different types, is an error, unless the partition was dropped before.
-/

namespace StagedQuery

/-- A comparison. -/
inductive CompareOp
  | eq | notEq | lt | ltEq | gt | gtEq
  deriving DecidableEq, Repr, Inhabited

namespace CompareOp

/-- Every comparison, in declaration order. -/
def all : List CompareOp := [eq, notEq, lt, ltEq, gt, gtEq]

/-- The name of a comparison. -/
def name : CompareOp → String
  | eq => "Eq"
  | notEq => "NotEq"
  | lt => "Lt"
  | ltEq => "LtEq"
  | gt => "Gt"
  | gtEq => "GtEq"

/-- Whether a comparison holds of two values that compare as given. -/
def holds : CompareOp → Ordering → Bool
  | eq, o => o == .eq
  | notEq, o => o != .eq
  | lt, o => o == .lt
  | ltEq, o => o != .gt
  | gt, o => o == .gt
  | gtEq, o => o != .lt

/-- A comparison as JSON. -/
def toJson (op : CompareOp) : Json := .string op.name

/-- Read a comparison. -/
def decoder : Json.Decoder CompareOp := Json.oneOf (all.map fun op => (op.name, op))

end CompareOp

/-- A condition on one partition column. -/
structure Predicate where
  column : String
  op : CompareOp
  value : Value
  deriving DecidableEq, Repr, Inhabited

/-- The conditions on a partition. -/
structure PartitionFilter where
  predicates : List Predicate
  deriving DecidableEq, Repr, Inhabited

namespace Predicate

/-- Try a predicate on the values of a partition. -/
def test (p : Predicate) (columns : List String) (values : List Value) : Except Error Bool :=
  match columns.findIdx? (· == p.column) with
  | none => .error (.planning (.unknownPartitionColumn p.column))
  | some index =>
    let actual := values[index]?.getD .null
    if actual.isNull || p.value.isNull then .ok false
    else if actual.dataType ≠ p.value.dataType then
      .error (.planning (.incomparable p.column actual p.value))
    else .ok (p.op.holds (actual.compare p.value))

/-- A predicate as JSON. -/
def toJson (p : Predicate) : Json :=
  .object [("column", .string p.column), ("op", p.op.toJson), ("value", p.value.toJson)]

/-- Read a predicate. -/
def decoder : Json.Decoder Predicate := fun scope json => do
  let fields ← Json.fields? ["column", "op", "value"] json
  let scope ← scope.enter?
  let column ← Json.field Json.text scope fields 0
  let op ← Json.field CompareOp.decoder scope fields 1
  let value ← Json.field Value.decoder scope fields 2
  some { column, op, value }

end Predicate

namespace PartitionFilter

/-- Try predicates in order until one drops the partition or is an error. -/
def testAll (columns : List String) (values : List Value) : List Predicate → Except Error Bool
  | [] => .ok true
  | p :: ps => do
    if ← p.test columns values then testAll columns values ps else pure false

/-- Whether a partition with the given values of the partition columns is kept. -/
def keeps (f : PartitionFilter) (columns : List String) (values : List Value) :
    Except Error Bool :=
  testAll columns values f.predicates

/-- A filter as JSON. -/
def toJson (f : PartitionFilter) : Json :=
  .object [("predicates", .array (f.predicates.map Predicate.toJson))]

/-- Read a filter. -/
def decoder : Json.Decoder PartitionFilter := fun scope json => do
  let fields ← Json.fields? ["predicates"] json
  let scope ← scope.enter?
  let predicates ← Json.field (Json.list Predicate.decoder) scope fields 0
  some { predicates }

end PartitionFilter

end StagedQuery

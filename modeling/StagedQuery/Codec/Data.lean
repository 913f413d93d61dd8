import StagedQuery.Json.Decode
import StagedQuery.RowGroup

/-!
# Data types, values and schemas as JSON

A data type is its name. A value is its type with the content, as in `{"Int32":7}`, and
the absent value is `"Null"`. Floating-point content is a number, so infinities and
not-a-number do not come back. `Value.display` is the text of a value for people.
-/

namespace StagedQuery

namespace DataType

/-- The data types by name. -/
def byName : List (String × DataType) := all.map fun t => (t.name, t)

/-- A data type as JSON. -/
def toJson (t : DataType) : Json := .string t.name

/-- Read a data type. -/
def decoder : Json.Decoder DataType := Json.oneOf byName

end DataType

namespace Value

/-- The text of a value for people. Dates and points in time are marked as such. -/
def display : Value → String
  | null => "NULL"
  | boolean b => if b then "true" else "false"
  | int32 n => toString n.toInt
  | int64 n => toString n.toInt
  | float32 bits => FloatNotation.plain.single bits
  | float64 bits => FloatNotation.plain.double bits
  | utf8 text => text
  | date n => s!"date({n.toInt})"
  | timestamp n => s!"timestamp({n.toInt})"

/-- A variant with content. -/
def variant (name : String) (content : Json) : Json := .object [(name, content)]

/-- A value as JSON. -/
def toJson : Value → Json
  | null => .string "Null"
  | boolean b => variant "Boolean" (.bool b)
  | int32 n => variant "Int32" (.integer n.toInt)
  | int64 n => variant "Int64" (.integer n.toInt)
  | float32 bits => variant "Float32" (.single bits)
  | float64 bits => variant "Float64" (.float bits)
  | utf8 text => variant "Utf8" (.string text)
  | date n => variant "Date" (.integer n.toInt)
  | timestamp n => variant "Timestamp" (.integer n.toInt)

/-- Read a value. -/
def decoder : Json.Decoder Value := fun scope json => do
  let (name, content) ← Json.variant? scope json
  if name = "Null" then (if Json.isUnit content then some null else none)
  else do
    let (scope, json) ← content
    match name with
    | "Boolean" => (Json.boolean scope json).map boolean
    | "Int32" => (Json.int32 scope json).map int32
    | "Int64" => (Json.int64 scope json).map int64
    | "Float32" => (Json.singlePrecision scope json).map float32
    | "Float64" => (Json.double scope json).map float64
    | "Utf8" => (Json.text scope json).map utf8
    | "Date" => (Json.int64 scope json).map date
    | "Timestamp" => (Json.int64 scope json).map timestamp
    | _ => none

end Value

namespace Field

/-- A column as JSON. -/
def toJson (f : Field) : Json :=
  .object [("name", .string f.name), ("data_type", f.dataType.toJson),
    ("nullable", .bool f.nullable)]

/-- Read a column. -/
def decoder : Json.Decoder Field := fun scope json => do
  let fields ← Json.fields? ["name", "data_type", "nullable"] json
  let scope ← scope.enter?
  let name ← Json.field Json.text scope fields 0
  let dataType ← Json.field DataType.decoder scope fields 1
  let nullable ← Json.field Json.boolean scope fields 2
  some { name, dataType, nullable }

end Field

namespace Schema

/-- A schema as JSON. -/
def toJson (s : Schema) : Json :=
  .object [("fields", .array (s.fields.map Field.toJson)),
    ("keys", .array (s.keys.map Field.toJson))]

/-- Read a schema; without key columns they may be left out. -/
def decoder : Json.Decoder Schema := fun scope json => do
  let fields ← Json.fields? ["fields", "keys"] json
  let scope ← scope.enter?
  let columns ← Json.field (Json.list Field.decoder) scope fields 0
  let keys ← Json.fieldOr [] (Json.list Field.decoder) scope fields 1
  some { fields := columns, keys }

end Schema

end StagedQuery

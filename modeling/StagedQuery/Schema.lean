import StagedQuery.Text.Utf8
import StagedQuery.Value

/-!
# Schemas and data errors

A schema names and types the columns of a batch: the value columns, which operators
see, and the key columns, which travel beside them. `DataError` lists the ways in
which data and a schema can disagree, and `DecodeError` the ways in which bytes can
fail to be a column; each says what is wrong, and `message` says it in words.
-/

namespace StagedQuery

/-- Why bytes are not a batch, or a batch cannot be written as bytes. -/
inductive DecodeError
  /-- A count does not fit into the signed word that carries it. -/
  | countTooLarge (count : Nat)
  /-- A count on the wire is negative. -/
  | negativeCount (what : String) (count : Int)
  /-- The payload ends too early. -/
  | bytesMissing (needed left : Nat)
  /-- A bitmap marks another number of rows than the batch has. -/
  | flagCount (column : String) (flags rows : Nat)
  /-- An absent value in a column that admits none. -/
  | absentValue (column : String)
  /-- The declared number of values is not the number of marked rows, or bytes are left. -/
  | valueCount (column : String) (declared marked : Nat)
  /-- Bytes follow the row count. -/
  | trailingBytes (count : Nat)
  /-- A batch announces more rows than the reader accepts. -/
  | batchTooLarge (rows limit : Nat)
  /-- The bytes of a text value are not text. -/
  | invalidText (fault : Utf8.Fault)
  deriving DecidableEq, Repr

/-- The wording of a decoding error. -/
def DecodeError.message : DecodeError → String
  | countTooLarge n => s!"count {n} does not fit in i32"
  | negativeCount what n => s!"negative {what}: {n}"
  | bytesMissing needed left => s!"needed {needed} bytes, {left} left"
  | flagCount column flags rows => s!"column '{column}' bitmap has {flags} flags for {rows} rows"
  | absentValue column => s!"null in non-nullable column '{column}'"
  | valueCount column declared marked =>
    s!"column '{column}' declares {declared} values, bitmap marks {marked}"
  | trailingBytes n => s!"row count frame has {n} trailing bytes"
  | batchTooLarge rows limit => s!"batch announces {rows} rows, limit is {limit}"
  | invalidText fault => s!"invalid UTF-8 in string value: {fault.message}"

/-- A disagreement between data and a schema. -/
inductive DataError
  /-- An absent value in a column that admits none. -/
  | absentValue (column : String)
  /-- A column is longer or shorter than its batch. -/
  | raggedColumn (entries rows : Nat)
  /-- A value of another type than its column's; the absent value has no type. -/
  | typeMismatch (expected : DataType) (found : Option DataType)
  /-- No column of that name. -/
  | noColumnNamed (name : String)
  /-- No column at that index. -/
  | noColumnAt (index columns : Nat)
  /-- A row with too few or too many values. -/
  | arityMismatch (expected found : Nat)
  | decode (why : DecodeError)
  deriving DecidableEq, Repr

/-- The wording of a data error. -/
def DataError.message : DataError → String
  | absentValue column => s!"Schema error: null value in non-nullable column '{column}'"
  | raggedColumn entries rows =>
    s!"Schema error: column has {entries} entries, batch has {rows} rows"
  | typeMismatch expected found =>
    let found := (found.map DataType.display).getD "NULL"
    s!"Type mismatch: expected {expected.display}, found {found}"
  | noColumnNamed name => s!"Column not found: {name}"
  | noColumnAt index columns =>
    s!"Column not found: column #{index} (schema has {columns} columns)"
  | arityMismatch expected found =>
    s!"Arity mismatch: expected {expected} columns, found {found}"
  | decode why => s!"Decode error: {why.message}"

/-- A column: its name, its type, and whether it may hold absent values. -/
structure Field where
  name : String
  dataType : DataType
  nullable : Bool
  deriving DecidableEq, Repr, Inhabited

/-- The columns of a batch. -/
structure Schema where
  /-- The value columns. -/
  fields : List Field
  /-- The key columns. -/
  keys : List Field := []
  deriving DecidableEq, Repr, Inhabited

namespace Schema

/-- The index of the first value column of a name. -/
def indexOf (schema : Schema) (name : String) : Except DataError Nat :=
  match schema.fields.findIdx? (·.name == name) with
  | some i => .ok i
  | none => .error (.noColumnNamed name)

/-- The first value column of a name. -/
def fieldNamed (schema : Schema) (name : String) : Except DataError Field :=
  match schema.fields.find? (·.name == name) with
  | some f => .ok f
  | none => .error (.noColumnNamed name)

/-- Every index is that of a value column; the first that is not is the error. -/
def checkColumns (schema : Schema) (indices : List Nat) : Except DataError Unit :=
  match indices.find? (schema.fields.length ≤ ·) with
  | some i => .error (.noColumnAt i schema.fields.length)
  | none => .ok ()

/-- The types of the value columns and of the key columns. -/
def shape (schema : Schema) : List DataType × List DataType :=
  (schema.fields.map (·.dataType), schema.keys.map (·.dataType))

end Schema

end StagedQuery

import StagedQuery.Schema

/-!
# Rows and row groups

A row holds one value for each column. A row group holds a batch of rows column by
column. `RowGroup.ofRows` turns rows into columns, refusing those that do not fit the
schema, and `RowGroup.rows` turns the columns back into rows.
-/

namespace StagedQuery

/-- One row: its values and its key values. -/
structure Row where
  vals : List Value
  keys : List Value := []
  deriving DecidableEq, Repr, Inhabited

/-- One value fits its column: absence is allowed there, and the type is the column's. -/
def Field.check (field : Field) (value : Value) : Except DataError Unit :=
  if value.isNull && !field.nullable then .error (.absentValue field.name)
  else if !value.conformsTo field.dataType then
    .error (.typeMismatch field.dataType value.dataType)
  else .ok ()

/-- The values of a row fit the columns, one for one. The number of values is checked
first, then the columns from the left. -/
def checkValues (fields : List Field) (values : List Value) : Except DataError Unit :=
  if values.length ≠ fields.length then .error (.arityMismatch fields.length values.length)
  else (fields.zip values).forM fun (f, v) => f.check v

/-- A row fits a schema: first its values, then its key values. -/
def Row.validate (row : Row) (schema : Schema) : Except DataError Unit := do
  checkValues schema.fields row.vals
  checkValues schema.keys row.keys

/-- A batch of rows, column by column. -/
structure RowGroup where
  rowCount : Nat
  /-- The value columns. -/
  columns : List (List Value)
  /-- The key columns. -/
  keyColumns : List (List Value)
  deriving DecidableEq, Repr, Inhabited

namespace RowGroup

/-- The group of no rows, with the columns of a schema. -/
def empty (schema : Schema) : RowGroup where
  rowCount := 0
  columns := schema.fields.map fun _ => []
  keyColumns := schema.keys.map fun _ => []

/-- The group of given columns, which must all have one entry for each row. -/
def ofColumns (rowCount : Nat) (columns keyColumns : List (List Value)) :
    Except DataError RowGroup :=
  match (columns ++ keyColumns).find? (·.length ≠ rowCount) with
  | some column => .error (.raggedColumn column.length rowCount)
  | none => .ok { rowCount, columns, keyColumns }

/-- Append to each column the value at its place; columns and values beyond the shorter
of the two lists are left as they are. -/
def appendValues : List (List Value) → List Value → List (List Value)
  | column :: columns, v :: vs => (column ++ [v]) :: appendValues columns vs
  | columns, _ => columns

/-- Append a row without looking at it. -/
def append (group : RowGroup) (row : Row) : RowGroup where
  rowCount := group.rowCount + 1
  columns := appendValues group.columns row.vals
  keyColumns := appendValues group.keyColumns row.keys

/-- Append a row that fits the schema. -/
def push (group : RowGroup) (schema : Schema) (row : Row) : Except DataError RowGroup := do
  row.validate schema
  pure (group.append row)

/-- The group of a list of rows, or the error of the first that does not fit. -/
def ofRows (schema : Schema) (rows : List Row) : Except DataError RowGroup :=
  rows.foldlM (fun group row => group.push schema row) (empty schema)

/-- Whether the group has no rows. -/
def isEmpty (group : RowGroup) : Bool := group.rowCount == 0

/-- The entries of all columns at one index. -/
def entriesAt (index : Nat) (columns : List (List Value)) : List Value :=
  columns.map (·[index]?.getD .null)

/-- The row at an index. -/
def row? (group : RowGroup) (index : Nat) : Option Row :=
  if index < group.rowCount then
    some { vals := entriesAt index group.columns, keys := entriesAt index group.keyColumns }
  else none

/-- The rows of a group, in order. -/
def rows (group : RowGroup) : List Row :=
  (List.range group.rowCount).filterMap group.row?

/-- Hand the entries of a column to the rows, one each. -/
def deal (rows : List (List Value)) (column : List Value) : List (List Value) :=
  match rows, column with
  | row :: rows, v :: column => (row ++ [v]) :: deal rows column
  | rows, _ => rows

/-- Take a group apart: the columns are dealt out to the rows one after the other. -/
def intoRows (group : RowGroup) : List Row :=
  let blank := List.replicate group.rowCount []
  List.zipWith (fun vals keys => { vals, keys })
    (group.columns.foldl deal blank) (group.keyColumns.foldl deal blank)

end RowGroup

end StagedQuery

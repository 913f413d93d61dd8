import StagedQuery.Hash.SipHash
import StagedQuery.Operator.Basic

/-!
# Operators that move rows

These operators only decide where rows go. Duplicate sends every row to every output,
balance deals the rows out in turn, shuffle sends rows with equal keys to the same output,
and concatenation puts the inputs one after the other. Limit passes on the first rows,
and still reads every input to its end.
-/

namespace StagedQuery

/-- The bytes by which a value enters a hash: the rank of its type, and its content.
Equal values have equal bytes. A text is closed by a byte that no text contains. -/
def Value.hashBytes (v : Value) : Bytes :=
  UInt8.ofNat v.rank :: match v with
    | .null => []
    | .boolean b => [if b then 1 else 0]
    | .int32 n => Bytes.le32 n.toUInt32
    | .int64 n => Bytes.le64 n.toUInt64
    | .float32 bits => Bytes.le32 bits
    | .float64 bits => Bytes.le64 bits
    | .utf8 text => Utf8.encode text ++ [0xff]
    | .date n => Bytes.le64 n.toUInt64
    | .timestamp n => Bytes.le64 n.toUInt64

/-- The values of a row in some columns; a column that the row does not have is absent. -/
def Row.keyValues (row : Row) (columns : List Nat) : List Value :=
  columns.map fun i => row.vals[i]?.getD .null

/-- The output of a row among `outputs`, by the hash of its values in the key columns. -/
def Row.route (row : Row) (columns : List Nat) (outputs : Nat) : Nat :=
  (SipHash.hash ((row.keyValues columns).flatMap Value.hashBytes)).toNat % max outputs 1

namespace Operator

/-- Every row to every output. -/
def duplicate : Operator := fun _ inputs => do
  let outputs := (← .get).outputs.length
  Action.each
    (Delivery.eachRow fun row => Action.each (fun i => Stage.write i row) (List.range outputs))
    inputs

/-- The rows to the outputs in turn. -/
def balance : Operator := fun _ inputs => do
  let outputs := (← .get).outputs.length
  let deal (next : Nat) (row : Row) : Action Stage Nat := do
    Stage.write next row
    pure ((next + 1) % outputs)
  let _ ← Action.fold (Delivery.foldRows deal) 0 inputs

/-- Each row to the output that the hash of its key columns selects. -/
def shuffle : Operator := fun job inputs => do
  match job.kind with
  | .shuffle columns =>
    let outputs := (← .get).outputs.length
    Action.each (Delivery.eachRow fun row => Stage.write (row.route columns outputs) row) inputs
  | _ => wrongKind "shuffle" job

/-- The inputs one after the other to the first output. -/
def concatenate : Operator := fun _ inputs =>
  Action.each
    (Delivery.eachBatch fun group => Stage.onOutput 0 (RowWriter.writeGroup group))
    inputs

/-- The first `count` rows of all inputs to the first output. -/
def limit : Operator := fun job inputs => do
  match job.kind with
  | .limit count =>
    let pass (emitted : Nat) (row : Row) : Action Stage Nat := do
      if emitted < count then
        Stage.write 0 row
        pure (emitted + 1)
      else pure emitted
    let _ ← Action.fold (Delivery.foldRows pass) 0 inputs
  | _ => wrongKind "limit" job

end Operator

end StagedQuery

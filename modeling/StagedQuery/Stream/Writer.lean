import StagedQuery.Codec.Data
import StagedQuery.Stream.Column
import StagedQuery.Wire.Frame

/-!
# Writing row streams

A row stream is a schema, any number of batches, and the end-of-stream marker. A batch is
the message of its row count, then two messages for each value column and each key
column. The writer collects rows and writes a batch as soon as it has as many as its
threshold.

A batch leaves the buffer before it is written: when a write fails, its rows are gone.
-/

namespace StagedQuery

/-- Encode the columns of a batch one after the other. -/
def encodeColumns : List (List Value × Field) → Except DataError (List Bytes)
  | [] => .ok []
  | (values, field) :: columns => do
    let (bitmap, data) ← Column.encode values field.dataType
    let rest ← encodeColumns columns
    pure (bitmap :: data :: rest)

/-- The messages of a batch: the row count, the value columns, the key columns. -/
def RowGroup.encode (group : RowGroup) (schema : Schema) : Except DataError (List Bytes) := do
  let count ← Column.encodeCount group.rowCount
  let columns ← encodeColumns
    (group.columns.zip schema.fields ++ group.keyColumns.zip schema.keys)
  pure (count :: columns)

/-- A writer of rows. -/
structure RowWriter where
  frames : FrameWriter := {}
  schema : Schema
  /-- The rows that wait for the next batch. -/
  buffer : RowGroup
  /-- The number of rows at which a batch is written; at least one. -/
  threshold : Nat
  /-- The number of batches written. -/
  flushes : Nat := 0
  schemaSent : Bool := false

namespace RowWriter

/-- A writer onto a transport. -/
def create (sink : Sink) (schema : Schema) (threshold : Nat) : RowWriter where
  frames := { sink }
  schema
  buffer := .empty schema
  threshold := max threshold 1

/-- The number of rows that wait for the next batch. -/
def buffered (w : RowWriter) : Nat := w.buffer.rowCount

/-- Act on the frames. -/
def onFrames (x : Action FrameWriter Unit) : Action RowWriter Unit :=
  x.zoom (·.frames) fun w frames => { w with frames }

/-- Announce the schema, once. -/
def sendSchema : Action RowWriter Unit := do
  let w ← .get
  if w.schemaSent then pure ()
  else
    onFrames (FrameWriter.writeJson w.schema.toJson)
    .modify fun w => { w with schemaSent := true }

/-- Write the rows that wait as one batch. -/
def flush : Action RowWriter Unit := do
  sendSchema
  let w ← .get
  if w.buffer.isEmpty then pure ()
  else
    .modify fun w => { w with buffer := .empty w.schema }
    let messages ← .ofExcept ((w.buffer.encode w.schema).mapError .data)
    Action.each (fun m => onFrames (FrameWriter.writeMessage m)) messages
    .modify fun w => { w with flushes := w.flushes + 1 }

/-- Append a row, and write a batch when there are enough. -/
def writeRow (row : Row) : Action RowWriter Unit := do
  let w ← .get
  let buffer ← .ofExcept ((w.buffer.push w.schema row).mapError .data)
  .modify fun w => { w with buffer }
  if w.threshold ≤ buffer.rowCount then flush else pure ()

/-- Append rows until one is refused. -/
def writeRows (rows : List Row) : Action RowWriter Unit := Action.each writeRow rows

/-- Append the rows of a group. -/
def writeGroup (group : RowGroup) : Action RowWriter Unit := writeRows group.intoRows

/-- Write what waits and the end-of-stream marker, and shut the transport down. A stream
that is finished stays as it is. -/
def close : Action RowWriter Unit := do
  if (← .get).frames.finished then pure ()
  else
    flush
    onFrames FrameWriter.close

/-- Give the stream up: what waits is dropped, and no marker is written. -/
def abort : Action RowWriter Unit := do
  .modify fun w => { w with buffer := .empty w.schema }
  onFrames FrameWriter.abort

end RowWriter

end StagedQuery

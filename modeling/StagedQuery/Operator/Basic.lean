import StagedQuery.Job.StageJob
import StagedQuery.Stream.Reader
import StagedQuery.Stream.Writer

/-!
# Operators

An operator does the work of a stage job. It reads its inputs, each a delivery of batches
with or without an error at its end, and writes rows to its outputs. An input that ends
in an error makes the operator fail as soon as it has taken the rows before the error;
what it has written by then stays written.

Closing the outputs is not the operator's business: whoever runs it closes them if it
succeeds, and aborts them if it fails.
-/

namespace StagedQuery

/-- What an operator changes: its outputs, and the log. -/
structure Stage where
  outputs : List RowWriter
  logs : List (LogLevel × String) := []

/-- The work of a stage job: the job, its inputs, and what is done to the stage. -/
abbrev Operator := StageJob → List Delivery → Action Stage Unit

namespace Stage

/-- Act on an output, which has to exist. -/
def onOutput (i : Nat) (x : Action RowWriter Unit) : Action Stage Unit := fun stage =>
  x.zoomAt (·.outputs) (fun s outputs => { s with outputs }) i
    (.taskFailed s!"output {i} requested, job has {stage.outputs.length}") stage

/-- Write a row to an output. -/
def write (i : Nat) (row : Row) : Action Stage Unit := onOutput i (RowWriter.writeRow row)

/-- Log a message. -/
def log (level : LogLevel) (message : String) : Action Stage Unit :=
  .modify fun s => { s with logs := s.logs ++ [(level, message)] }

end Stage

/-! ### Going through the inputs -/

namespace Delivery

/-- Fail with the error that ends a delivery, if there is one. -/
def finish (d : Delivery) : Action Stage Unit :=
  match d.fault with
  | some e => .fail e
  | none => pure ()

/-- Go through the rows of a delivery with a result that is handed on from row to row. -/
def foldRows {β : Type} (f : β → Row → Action Stage β) (b : β) (d : Delivery) : Action Stage β := do
  let b ← Action.fold f b d.rows
  d.finish
  pure b

/-- Do something with every row of a delivery. -/
def eachRow (f : Row → Action Stage Unit) (d : Delivery) : Action Stage Unit := do
  Action.each f d.rows
  d.finish

/-- Do something with every batch of a delivery. -/
def eachBatch (f : RowGroup → Action Stage Unit) (d : Delivery) : Action Stage Unit := do
  Action.each f d.batches
  d.finish

/-- All rows of all deliveries, unless one ends in an error. -/
def allRows : List Delivery → Except Error (List Row)
  | [] => .ok []
  | d :: ds =>
    match d.fault with
    | some e => .error e
    | none => do
      let rows ← allRows ds
      pure (d.rows ++ rows)

end Delivery

namespace Operator

/-- An operator met a job that is not of its kind. -/
def wrongKind {α : Type} (name : String) (job : StageJob) : Action Stage α :=
  .fail (.invalidJob (.wrongKind name job.tag))

end Operator

end StagedQuery

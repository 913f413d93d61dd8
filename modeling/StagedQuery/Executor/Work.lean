import StagedQuery.Executor.Settings
import StagedQuery.Operator.Registry

/-!
# The work of an executor

An executor hands the inputs and the outputs of its job to an operator. When the operator
succeeds every output is closed, so that it ends in the end-of-stream marker; when it
fails every output is aborted, so that no reader takes what was written for the whole.
-/

namespace StagedQuery

/-- Abort an output. -/
def RowWriter.aborted (w : RowWriter) : RowWriter := (RowWriter.abort w).2

/-- Close outputs one after the other; when one cannot be closed the others are aborted. -/
def closeOutputs : List RowWriter → Except Error Unit × List RowWriter
  | [] => (.ok (), [])
  | w :: ws =>
    match RowWriter.close w with
    | (.ok (), w) =>
      let (result, ws) := closeOutputs ws
      (result, w :: ws)
    | (.error e, w) => (.error e, w :: ws.map RowWriter.aborted)

/-- How the work of an executor ended, its outputs, and what the operator logged. The error
`Error.wouldBlock` says that it has not ended. -/
structure Outcome where
  result : Except Error Unit
  outputs : List RowWriter
  logs : List (LogLevel × String)

namespace Outcome

/-- Whether the work goes on. -/
def isWaiting (o : Outcome) : Bool :=
  match o.result with
  | .error .wouldBlock => true
  | _ => false

/-- What each reader of an output gets to see. -/
def streams (o : Outcome) : List Sink := o.outputs.map (·.frames.sink)

end Outcome

/-- Run an operator, and close or abort its outputs. -/
def Operator.perform (operator : Operator) (job : StageJob) (inputs : List Delivery)
    (outputs : List RowWriter) : Outcome :=
  match operator job inputs { outputs } with
  | (.ok (), stage) =>
    let (result, outputs) := closeOutputs stage.outputs
    { result, outputs, logs := stage.logs }
  | (.error .wouldBlock, stage) =>
    { result := .error .wouldBlock, outputs := stage.outputs, logs := stage.logs }
  | (.error e, stage) =>
    { result := .error e, outputs := stage.outputs.map RowWriter.aborted, logs := stage.logs }

/-- A reader of what another executor has written: at most `maxMessageSize` bytes a message,
and batches as large as the executors of the query write them. -/
def QuerySettings.reader (config : QuerySettings) (stream : Sink) : RowReader where
  frames :=
    { rest := stream.bytes, closed := 0 < stream.shutdowns, maxMessage := config.maxMessageSize }
  maxRows := max config.flushThreshold 1

/-- A writer of an output of a job. -/
def QuerySettings.writer (config : QuerySettings) (schema : Schema) (sink : Sink) : RowWriter :=
  .create sink schema config.flushThreshold

end StagedQuery

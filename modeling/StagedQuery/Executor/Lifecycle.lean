import StagedQuery.Executor.State
import StagedQuery.Executor.Work

/-!
# The life of an executor

An executor runs one job. It accepts the job, sets up its outputs and then its inputs, and
runs the operator; the operator ends later, on its own. Clearing an executor ends it at
any time. The *completion signal* is given when the operator has ended, or when the
executor is cleared, and is never taken back.

A call that fails changes nothing but the log, which gets the error. The time enters as a
parameter, and so does the transport, by which outputs are offered and inputs are reached.
-/

namespace StagedQuery

/-- How outputs are offered and inputs are reached. -/
structure Transport where
  /-- Offer an output: where it is found, and what is written to. -/
  listen : QuerySettings → Location → Except Error (Location × Sink)
  /-- Reach an output of another executor. -/
  dial : QuerySettings → Location → Except Error RowReader

/-- What an operator works on. -/
structure Work where
  operator : Operator
  job : StageJob
  config : QuerySettings
  readers : List RowReader
  writers : List RowWriter

/-- An executor. -/
structure Executor where
  /-- Its first output. -/
  location : Location
  state : ExecutorState := {}
  /-- The job that it holds, with the settings of the query. -/
  held : Option (StageJob × QuerySettings) := none
  /-- The outputs that are set up and not yet in the operator's hands. -/
  writers : List RowWriter := []
  /-- The inputs that are set up and not yet in the operator's hands. -/
  readers : List RowReader := []
  /-- Where the outputs are found, once they are set up. -/
  published : Option (List Location) := none
  /-- Whether the outputs have begun to wait for their readers. -/
  outputsWaiting : Bool := false
  /-- What the operator works on, while it runs. -/
  work : Option Work := none
  /-- Whether the completion signal was given. -/
  done : Bool := false
  /-- Whether the last report is still to be delivered. -/
  reporting : Bool := false

namespace Executor

/-- The name of an executor. -/
def name (e : Executor) : String := e.location.name

/-- Done, and the last report delivered. -/
def isFinished (e : Executor) : Bool := e.done && !e.reporting

/-- Log a message. -/
def log (e : Executor) (now : Nat) (level : LogLevel) (message : String) : Executor :=
  { e with state := e.state.log now level message }

/-- Log the error of a call that fails. -/
def record {α : Type} (now : Nat) (x : Action Executor α) : Action Executor α := fun e =>
  match x e with
  | (.ok a, e) => (.ok a, e)
  | (.error fault, e) => (.error fault, e.log now .error fault.message)

/-- The job that is held. -/
def heldJob : Action Executor (StageJob × QuerySettings) := fun e =>
  match e.held with
  | some held => (.ok held, e)
  | none => (.error (.invalidJob (.notAccepted e.name)), e)

/-- Accept a job: one for this executor, that is valid, with an operator for it, and only if
no job is held. -/
def accept (registry : Registry) (now : Nat) (job : StageJob) (config : QuerySettings) :
    Action Executor Unit :=
  record now do
    let e ← .get
    if job.location.name ≠ e.name then
      .fail (.invalidJob (.misdelivered job.location.name e.name))
    .ofExcept job.validate
    if !registry.contains job.tag then .fail (.invalidJob (.noOperator job.tag))
    if e.held.isSome then .fail (.invalidJob (.alreadyHolding e.name))
    .modify fun e =>
      log { e with held := some (job, config), reporting := config.coordinator.isSome } now .info
        s!"accepted {job.tag.display} job {job.taskName}"

/-- Offer outputs one after the other. -/
def listenAll (transport : Transport) (config : QuerySettings) (schema : Schema) :
    List Location → Except Error (List (Location × RowWriter))
  | [] => .ok []
  | output :: outputs => do
    let (location, sink) ← transport.listen config output
    let rest ← listenAll transport config schema outputs
    pure ((location, config.writer schema sink) :: rest)

/-- Set up the outputs, and publish where they are found. -/
def setupWriters (transport : Transport) (now : Nat) : Action Executor Unit :=
  record now do
    let (job, config) ← heldJob
    let e ← .get
    if e.published.isSome then .fail (.channel (.writersReady e.name))
    let outputs ← .ofExcept (listenAll transport config job.schema job.outputs)
    .modify fun e =>
      log
        { e with
          writers := outputs.map (·.2)
          published := some (outputs.map (·.1)) }
        now .info s!"listening on {outputs.length} outputs"

/-- Reach inputs one after the other. -/
def dialAll (transport : Transport) (config : QuerySettings) :
    List Location → Except Error (List RowReader)
  | [] => .ok []
  | input :: inputs => do
    let reader ← transport.dial config input
    let rest ← dialAll transport config inputs
    pure (reader :: rest)

/-- Set up the inputs. -/
def setupReaders (transport : Transport) (now : Nat) : Action Executor Unit :=
  record now do
    let (job, config) ← heldJob
    let readers ← .ofExcept (dialAll transport config job.inputs)
    .modify fun e => log { e with readers } now .info s!"connected to {job.inputs.length} inputs"

/-- Where an output is found. Until the outputs are set up the question waits, unless the
executor is done before. -/
def resolve (e : Executor) (index : Nat) : Except Error Location :=
  match e.published with
  | some locations =>
    match locations[index]? with
    | some location => .ok location
    | none => .error (.channel (.noOutput e.name index))
  | none => .error (if e.done then .channel (.neverPublished e.name) else .wouldBlock)

/-- Start the operator, with every input and every output of the job. -/
def run (registry : Registry) (now : Nat) : Action Executor Unit :=
  record now do
    let (job, config) ← heldJob
    match registry.get? job.tag with
    | none => .fail (.invalidJob (.noOperator job.tag))
    | some operator =>
      let e ← .get
      if e.writers.length ≠ job.outputs.length ∨ e.readers.length ≠ job.inputs.length then
        .fail (.channel (.notWired e.writers.length job.outputs.length e.readers.length
          job.inputs.length))
      let (started, state) := e.state.start
      if !started then
        .modify fun e => { e with writers := [], readers := [] }
        .fail (.invalidJob (.cannotStart e.name e.state.status))
      .modify fun e =>
        { e with
          state, writers := [], readers := []
          work := some { operator, job, config, readers := e.readers, writers := e.writers } }

/-- Give the completion signal. -/
def complete (e : Executor) : Executor := { e with done := true }

/-- Log what an operator has logged. -/
def logAll (e : Executor) (now : Nat) (logs : List (LogLevel × String)) : Executor :=
  logs.foldl (fun e (level, message) => e.log now level message) e

/-- The operator has ended, and its outputs were taken by their readers or were not. -/
def finish (now : Nat) (outcome : Outcome) (taken : Except Error Unit) (e : Executor) : Executor :=
  let e := logAll { e with work := none } now outcome.logs
  let result := do
    outcome.result
    taken
  let state := match result with
    | .ok () => (e.state.succeed now).2
    | .error fault => (e.state.fail now fault.message).2
  complete { e with state }

/-- End the executor: what is set up is given up, and a job that has not ended has failed. -/
def clear (now : Nat) (e : Executor) : Executor :=
  let state :=
    if e.state.status.isTerminal then e.state
    else (e.state.fail now "cleared before completion").2
  complete { e with writers := [], readers := [], state }

end Executor

end StagedQuery

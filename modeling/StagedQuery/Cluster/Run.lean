import StagedQuery.Cluster.Coordinator
import StagedQuery.Cluster.Worker

/-!
# Running a graph

The jobs of a graph run in the order of the graph, each on what the jobs before it have
written to the outputs that it reads. This is how a query ends whenever it ends: operators
only read and write streams, so that it does not matter when they do.

A `Cluster` is a coordinator with workers that it reaches directly. Dispatching a graph to
it sends the same requests, in the same order, as dispatching it over a network.
-/

namespace StagedQuery

/-- What became of a job. -/
structure JobRun where
  job : StageJob
  outcome : Outcome

namespace JobRun

/-- The stream of each output of a job. -/
def streams (run : JobRun) : List (Location × Sink) := run.job.outputs.zip run.outcome.streams

end JobRun

namespace StageGraph

/-- What was written to an output: nothing yet, unless a job has run that has it. -/
def streamAt (runs : List JobRun) (output : Location) : Sink :=
  let found := (runs.flatMap JobRun.streams).find? fun (location, _) =>
    location.name == output.name && location.channel == output.channel
  (found.map (·.2)).getD {}

/-- Run a job after others. -/
def runJob (registry : Registry) (config : QuerySettings) (runs : List JobRun) (job : StageJob) :
    JobRun :=
  let inputs := job.inputs.map fun l => (RowReader.drain (config.reader (streamAt runs l))).1
  let outputs := job.outputs.map fun _ => config.writer job.schema {}
  { job
    outcome := match registry.get? job.tag with
      | some operator => operator.perform job inputs outputs
      | none => { result := .error (.invalidJob (.noOperator job.tag)), outputs, logs := [] } }

/-- Run the jobs of a graph one after the other. -/
def run (registry : Registry) (config : QuerySettings) (graph : StageGraph) : List JobRun :=
  graph.jobs.foldl (fun runs job => runs ++ [runJob registry config runs job]) []

/-- What the sink delivers. -/
def result (config : QuerySettings) (graph : StageGraph) (runs : List JobRun) : Delivery :=
  match graph.sinkOutput? with
  | some output => (RowReader.drain (config.reader (streamAt runs output))).1
  | none => ⟨[], some (.truncated .beforeEnd)⟩

end StageGraph

/-- A coordinator and the workers that it reaches. -/
structure Cluster where
  coordinator : Coordinator
  workers : List Worker

namespace Cluster

/-- A cluster of `n` workers with an operator registry. -/
def create (n : Nat) (registry : Registry) (config : CoordinatorSettings) : Cluster :=
  let infos := (List.range n).map fun i =>
    ({ name := s!"worker{i}", host := "127.0.0.1", controlPort := UInt16.ofNat (7000 + i)
       dataPort := 0 } : WorkerInfo)
  { coordinator := infos.foldl (fun c info => (Coordinator.register info c).2) { config }
    workers := infos.map fun info => { info, registry } }

/-- Where requests to a worker are sent. -/
def addressOf (w : Worker) : String := (w.info.executorLocation "").controlAddress

/-- The worker at an address. -/
def workerAt? (c : Cluster) (address : String) : Option Worker :=
  c.workers.find? fun w => addressOf w == address

/-- No worker is at an address. -/
def refused (address : String) : Error :=
  .channel (.unreachable address "Connection refused (os error 111)")

/-- Reach an output of an executor on some worker. -/
def dial (c : Cluster) (config : QuerySettings) (output : Location) : Except Error RowReader := do
  match c.workerAt? output.controlAddress with
  | none => throw (refused output.controlAddress)
  | some worker =>
    match worker.executor? output.name with
    | none => throw (.remote (Error.executorNotFound output.name).message)
    | some executor =>
      match executor.resolve output.channel with
      | .error e => throw (.remote e.message)
      | .ok location =>
        ControlAnswer.checkLocation output location
        pure (config.reader {})

/-- The transport between the members of a cluster. -/
def transport (c : Cluster) : Transport where
  listen := fun _ output => .ok ({ output with dataPort := 1 }, {})
  dial := c.dial

/-- Send a request to the worker at an address, which must answer `ControlResponse.ok`. Both travel
as bytes: the worker gets what it makes of the request's text. -/
def ask (now : Nat) (fresh : Identifier) (address : String) (request : ControlRequest) :
    Action Cluster Unit := fun c =>
  match c.workerAt? address with
  | none => (.error (refused address), c)
  | some worker =>
    match request.send {} with
    | (.error e, _) => (.error e, c)
    | (.ok (), sent) =>
      let (answer, worker) := worker.serve c.transport now fresh sent.sink.bytes
      let c := { c with
        workers := c.workers.map fun w => if w.info.name = worker.info.name then worker else w }
      ((ControlAnswer.read address c.coordinator.network answer).bind ControlAnswer.expectOk, c)

/-- Dispatch a graph. -/
def dispatch (now : Nat) (graph : StageGraph) (config : QuerySettings) : Action Cluster Unit := do
  if config.coordinator.isSome then
    .modify fun c => { c with coordinator := c.coordinator.expect now graph }
  Coordinator.handOut (ask now config.queryId) graph config

/-- The executor of a job has ended, and has reported. -/
def endJob (now : Nat) (c : Cluster) (run : JobRun) : Cluster :=
  let location := run.job.location
  let host := c.workerAt? location.controlAddress
  match host.bind fun w => (w.executor? location.name).map (w, ·) with
  | none => c
  | some (worker, executor) =>
    let executor :=
      if run.outcome.isWaiting then executor else executor.finish now run.outcome (.ok ())
    let reporter : Reporter := { location, taskId := run.job.taskId }
    let (heartbeat, _, state) := reporter.report executor.state
    let worker := worker.update { executor with state, reporting := false }
    { coordinator := c.coordinator.record now heartbeat
      workers := c.workers.map fun w => if w.info.name = worker.info.name then worker else w }

/-- Read the result of a query whose jobs have run. A failed job explains a broken result
better than the result does. -/
def fetch (now : Nat) (graph : StageGraph) (config : QuerySettings) (runs : List JobRun)
    (c : Cluster) : Except Error (List Row) :=
  let delivery := graph.result config runs
  match delivery.fault with
  | none => .ok delivery.rows
  | some e => do
    c.coordinator.expectHealthy now graph
    throw e

/-- Run a dispatched graph to its end. -/
def execute (now : Nat) (registry : Registry) (graph : StageGraph) (config : QuerySettings)
    (c : Cluster) : Except Error (List Row) × Cluster :=
  let runs := graph.run registry config
  let c := runs.foldl (endJob now) c
  (c.fetch now graph config runs, c)

end Cluster

end StagedQuery

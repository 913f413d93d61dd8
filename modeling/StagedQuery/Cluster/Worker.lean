import StagedQuery.Cluster.Control
import StagedQuery.Executor.Lifecycle

/-!
# Workers

A worker hosts executors, at most one of each name, and serves requests about them. An
executor enters when its job is accepted and leaves when it is finished and the worker
prunes. A request that fails is answered with the wording of its error.
-/

namespace StagedQuery

/-- A worker. -/
structure Worker where
  info : WorkerInfo
  registry : Registry
  network : ConnectionSettings := {}
  /-- The executors that it hosts. -/
  executors : List Executor := []

namespace Worker

/-- The executor of a name. -/
def executor? (w : Worker) (name : String) : Option Executor :=
  w.executors.find? (·.name == name)

/-- Replace the executor of a name. -/
def update (w : Worker) (e : Executor) : Worker :=
  { w with executors := w.executors.map fun old => if old.name = e.name then e else old }

/-- Drop the executors that are finished. -/
def prune (w : Worker) : Worker :=
  { w with executors := w.executors.filter fun e => !e.isFinished }

/-- Act on the executor of a name. -/
def onExecutor {α : Type} (name : String) (x : Action Executor α) : Action Worker α := fun w =>
  match w.executor? name with
  | none => (.error (.executorNotFound name), w)
  | some e =>
    let (result, e) := x e
    (result, w.update e)

/-- Create an executor that holds a job. One that does not take the job is dropped. -/
def accept (now : Nat) (job : StageJob) (config : QuerySettings) : Action Worker Unit := fun w =>
  match w.executor? job.location.name with
  | some _ => (.error (.invalidJob (.executorExists job.location.name w.info.name)), w)
  | none =>
    match Executor.accept w.registry now job config { location := job.location } with
    | (.error e, _) => (.error e, w)
    | (.ok (), executor) => (.ok (), { w with executors := w.executors ++ [executor] })

/-- Serve a request. -/
def dispatch (transport : Transport) (now : Nat) (request : ControlRequest) :
    Action Worker ControlResponse := do
  let registry := (← .get).registry
  match request with
  | .accept job config =>
    accept now job config
    pure .ok
  | .setupWriters name =>
    onExecutor name (Executor.setupWriters transport now)
    pure .ok
  | .setupReaders name =>
    onExecutor name (Executor.setupReaders transport now)
    pure .ok
  | .run name =>
    onExecutor name (Executor.run registry now)
    pure .ok
  | .resolveOutputLocation name channel =>
    return .location (← onExecutor name fun e => (e.resolve channel, e))

/-- Serve a request, and answer it in any case. -/
def handle (transport : Transport) (now : Nat) (request : ControlRequest) (w : Worker) :
    ControlResponse × Worker :=
  match dispatch transport now request w with
  | (.ok response, w) => (response, w)
  | (.error e, w) => (.error e.message, w)

/-- Serve a connection on which these bytes came in: read one request, and answer it. Where no
request can be read there is no answer. Workers prune when somebody connects; `fresh` identifies
a query that has no identifier yet. -/
def serve (transport : Transport) (now : Nat) (fresh : Identifier) (received : Bytes) (w : Worker) :
    Bytes × Worker :=
  let w := w.prune
  let reader : FrameReader := { rest := received, maxMessage := w.network.maxMessageSize }
  match (FrameReader.readJson (ControlRequest.decoder fresh) reader).1 with
  | .ok (some request) =>
    let (response, w) := w.handle transport now request
    ((response.send {}).2.sink.bytes, w)
  | .ok none | .error _ => ([], w)

/-- Clear every executor. -/
def shutdown (now : Nat) (w : Worker) : Worker :=
  { w with executors := w.executors.map (Executor.clear now) }

end Worker

end StagedQuery

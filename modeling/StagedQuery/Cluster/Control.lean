import StagedQuery.Cluster.Settings
import StagedQuery.Job.StageJob
import StagedQuery.Text.Description
import StagedQuery.Wire.Frame

/-!
# Requests to workers

Executors are set up by requests to the worker that hosts them. A request and its answer
travel as one JSON message each, followed by the end-of-stream marker.

The functions of `ControlAnswer` read an answer from the bytes that came back. An answer that
reports an error is the error `Error.remote`, whatever the error was on the other side.
-/

namespace StagedQuery

/-- A request to a worker, about one executor. -/
inductive ControlRequest
  /-- Create an executor that holds a job. -/
  | accept (job : StageJob) (config : QuerySettings)
  | setupWriters (executor : String)
  | setupReaders (executor : String)
  | run (executor : String)
  /-- Where an output is found; answered once the outputs are set up. -/
  | resolveOutputLocation (executor : String) (channel : Nat)
  deriving DecidableEq, Repr

/-- The answer of a worker. -/
inductive ControlResponse
  | ok
  | location (location : Location)
  | error (message : String)
  deriving DecidableEq, Repr

namespace ControlRequest

/-- The executor that a request is about. -/
def executor : ControlRequest → String
  | accept job _ => job.location.name
  | setupWriters executor => executor
  | setupReaders executor => executor
  | run executor => executor
  | resolveOutputLocation executor _ => executor

/-- A request with nothing but the name of an executor. -/
def named (request executor : String) : Json :=
  .object [(request, .object [("executor", .string executor)])]

/-- A request as JSON. -/
def toJson : ControlRequest → Json
  | accept job config =>
    .object [("Accept", .object [("job", job.toJson), ("config", config.toJson)])]
  | setupWriters executor => named "SetupWriters" executor
  | setupReaders executor => named "SetupReaders" executor
  | run executor => named "Run" executor
  | resolveOutputLocation executor channel =>
    .object [("ResolveOutputLocation",
      .object [("executor", .string executor), ("channel_index", .integer channel)])]

/-- Read the name of an executor. -/
def executorDecoder : Json.Decoder String := fun scope json => do
  let fields ← Json.fields? ["executor"] json
  let scope ← scope.enter?
  Json.field Json.text scope fields 0

/-- Read a request; `fresh` identifies a query that has no identifier yet. -/
def decoder (fresh : Identifier) : Json.Decoder ControlRequest := fun scope json => do
  let (name, content) ← Json.variant? scope json
  let (scope, json) ← content
  match name with
  | "Accept" => do
    let fields ← Json.fields? ["job", "config"] json
    let scope ← scope.enter?
    let job ← Json.field StageJob.decoder scope fields 0
    let config ← Json.field (QuerySettings.decoder fresh) scope fields 1
    some (accept job config)
  | "SetupWriters" => (executorDecoder scope json).map setupWriters
  | "SetupReaders" => (executorDecoder scope json).map setupReaders
  | "Run" => (executorDecoder scope json).map run
  | "ResolveOutputLocation" => do
    let fields ← Json.fields? ["executor", "channel_index"] json
    let scope ← scope.enter?
    let executor ← Json.field Json.text scope fields 0
    let channel ← Json.field Json.natural scope fields 1
    some (resolveOutputLocation executor channel)
  | _ => none

/-- A request as it is sent: one message, and the marker. -/
def send (request : ControlRequest) : Action FrameWriter Unit := do
  FrameWriter.writeJson request.toJson
  FrameWriter.finish

end ControlRequest

/-- The description of a location. -/
def Location.describe (l : Location) : String :=
  Text.describeRecord "Location"
    [("name", Text.describe l.name), ("host", Text.describe l.host),
      ("control_port", toString l.controlPort.toNat), ("data_port", toString l.dataPort.toNat),
      ("channel_index", toString l.channel)]

namespace ControlResponse

/-- An answer as JSON. -/
def toJson : ControlResponse → Json
  | ok => .string "Ok"
  | location l => .object [("Location", l.toJson)]
  | error message => .object [("Error", .string message)]

/-- Read an answer. -/
def decoder : Json.Decoder ControlResponse := fun scope json => do
  let (name, content) ← Json.variant? scope json
  if name = "Ok" then (if Json.isUnit content then some ok else none)
  else do
    let (scope, json) ← content
    match name with
    | "Location" => (Location.decoder scope json).map location
    | "Error" => (Json.text scope json).map error
    | _ => none

/-- The description of an answer. -/
def describe : ControlResponse → String
  | ok => "Ok"
  | location l => Text.describeVariant "Location" l.describe
  | error message => Text.describeVariant "Error" (Text.describe message)

/-- An answer as it is sent: one message, and the marker. -/
def send (response : ControlResponse) : Action FrameWriter Unit := do
  FrameWriter.writeJson response.toJson
  FrameWriter.finish

end ControlResponse

namespace ControlAnswer

/-- The answer that came back from an address; one that reports an error is an error. -/
def read (address : String) (network : ConnectionSettings) (bytes : Bytes) :
    Except Error ControlResponse :=
  let reader : FrameReader := { rest := bytes, maxMessage := network.maxMessageSize }
  match (FrameReader.readJson ControlResponse.decoder reader).1 with
  | .error e => .error e
  | .ok none => .error (.truncated (.beforeAnswer address))
  | .ok (some (.error message)) => .error (.remote message)
  | .ok (some response) => .ok response

/-- An answer that must be `ControlResponse.ok`. -/
def expectOk : ControlResponse → Except Error Unit
  | .ok => .ok ()
  | response => .error (.remote s!"unexpected answer {response.describe}")

/-- An answer that must be a location. -/
def expectLocation (asked : Location) : ControlResponse → Except Error Location
  | .location l => .ok l
  | response =>
    .error (.remote s!"expected a location for {asked.display}, got {response.describe}")

/-- A location that must be the output that was asked for. -/
def checkLocation (asked answered : Location) : Except Error Unit :=
  if answered.name ≠ asked.name ∨ answered.channel ≠ asked.channel then
    .error (.channel (.wrongAnswer asked answered))
  else .ok ()

end ControlAnswer

end StagedQuery

import StagedQuery.Identifier

/-!
# Workers and the outputs of executors

A worker has a name and an address. An executor, which runs one stage job on a worker,
has a name of its own; each of its outputs is a `Location`: the executor, the worker's
address, and the index of the output. The data port of a location is known once the
executor listens for the reader of that output.
-/

namespace StagedQuery

/-- One output of an executor, and where to find it. -/
structure Location where
  /-- The name of the executor. -/
  name : String
  host : String
  controlPort : UInt16
  dataPort : UInt16
  /-- The index of the output. -/
  channel : Nat := 0
  deriving DecidableEq, Repr, Inhabited

namespace Location

/-- Another output of the same executor. -/
def withChannel (l : Location) (channel : Nat) : Location := { l with channel }

/-- Where requests to the executor are sent. -/
def controlAddress (l : Location) : String := s!"{l.host}:{l.controlPort.toNat}"

/-- Where the output is read. -/
def dataAddress (l : Location) : String := s!"{l.host}:{l.dataPort.toNat}"

/-- A location in messages. -/
def display (l : Location) : String :=
  s!"{l.name}@{l.host}:{l.controlPort.toNat}/{l.dataPort.toNat}#{l.channel}"

/-- A location as JSON. -/
def toJson (l : Location) : Json :=
  .object [("name", .string l.name), ("host", .string l.host),
    ("control_port", .integer l.controlPort.toNat), ("data_port", .integer l.dataPort.toNat),
    ("channel_index", .integer l.channel)]

/-- Read a location. -/
def decoder : Json.Decoder Location := fun scope json => do
  let fields ← Json.fields? ["name", "host", "control_port", "data_port", "channel_index"] json
  let scope ← scope.enter?
  let name ← Json.field Json.text scope fields 0
  let host ← Json.field Json.text scope fields 1
  let controlPort ← Json.field Json.uint16 scope fields 2
  let dataPort ← Json.field Json.uint16 scope fields 3
  let channel ← Json.field Json.natural scope fields 4
  some { name, host, controlPort, dataPort, channel }

end Location

/-- A worker: its name and its address. -/
structure WorkerInfo where
  name : String
  host : String
  controlPort : UInt16
  dataPort : UInt16
  deriving DecidableEq, Repr, Inhabited

namespace WorkerInfo

/-- The first output of an executor on a worker. -/
def executorLocation (w : WorkerInfo) (executor : String) : Location where
  name := executor
  host := w.host
  controlPort := w.controlPort
  dataPort := w.dataPort

/-- A worker as JSON. -/
def toJson (w : WorkerInfo) : Json :=
  .object [("name", .string w.name), ("host", .string w.host),
    ("control_port", .integer w.controlPort.toNat), ("data_port", .integer w.dataPort.toNat)]

/-- Read a worker. -/
def decoder : Json.Decoder WorkerInfo := fun scope json => do
  let fields ← Json.fields? ["name", "host", "control_port", "data_port"] json
  let scope ← scope.enter?
  let name ← Json.field Json.text scope fields 0
  let host ← Json.field Json.text scope fields 1
  let controlPort ← Json.field Json.uint16 scope fields 2
  let dataPort ← Json.field Json.uint16 scope fields 3
  some { name, host, controlPort, dataPort }

end WorkerInfo

end StagedQuery

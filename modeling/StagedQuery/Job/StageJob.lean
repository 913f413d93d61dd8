import StagedQuery.Error

/-!
# Stage jobs

A stage job is one placed unit of a query: what it does, the outputs of other jobs that it
reads, in the order in which its operator takes them, and its own outputs. Output `i` of
a job is channel `i` of its executor. `StageJob.validate` checks what every job owes its
operator.
-/

namespace StagedQuery

/-- A placed unit of a query. -/
structure StageJob where
  taskId : Identifier
  /-- The executor that runs the job. -/
  location : Location
  kind : JobKind
  /-- The outputs of other jobs that the job reads. -/
  inputs : List Location
  outputs : List Location
  /-- The schema of the rows that the job emits. -/
  schema : Schema
  /-- The body of the operator, which only the operator understands. -/
  payload : Bytes
  deriving DecidableEq, Repr

namespace StageJob

/-- The tag of a job's kind. -/
def tag (job : StageJob) : JobTag := job.kind.tag

/-- A task in messages. -/
def taskName (job : StageJob) : String := job.taskId.taskName

/-- The number of inputs on the left side. -/
def leftInputs (job : StageJob) : Nat :=
  match job.kind with
  | .join n => n
  | .hashJoin n _ _ => n
  | _ => job.inputs.length

/-- The left and the right inputs; only joins have right ones. -/
def inputGroups (job : StageJob) : List Location × List Location :=
  (job.inputs.take job.leftInputs, job.inputs.drop job.leftInputs)

/-- Refuse a job. -/
def refuse (fault : JobFault) : Except Error Unit := .error (.invalidJob fault)

/-- Output `i` is channel `i` of the job's executor, from `i = index` on. -/
def checkOutputs (job : StageJob) (index : Nat) : List Location → Except Error Unit
  | [] => .ok ()
  | output :: outputs =>
    if output.name ≠ job.location.name ∨ output.channel ≠ index then
      refuse (.strayOutput job.location.name index output)
    else job.checkOutputs (index + 1) outputs

/-- Both sides of a join have inputs. -/
def checkSides (job : StageJob) (left : Nat) : Except Error Unit :=
  if left = 0 ∨ job.inputs.length ≤ left then
    refuse (.oneSidedJoin job.location.name left job.inputs.length)
  else .ok ()

/-- The job has the inputs that its kind needs. -/
def checkInputs (job : StageJob) : Except Error Unit :=
  match job.kind with
  | .scan .. =>
    if job.inputs.isEmpty then .ok () else refuse (.scanWithInputs job.location.name)
  | .join left => job.checkSides left
  | .hashJoin left leftKeys rightKeys => do
    job.checkSides left
    if leftKeys.isEmpty ∨ leftKeys.length ≠ rightKeys.length then
      refuse (.unpairedKeys job.location.name leftKeys.length rightKeys.length)
    else .ok ()
  | kind =>
    if job.inputs.isEmpty then refuse (.noInputs job.location.name kind.tag) else .ok ()

/-- Sort keys name columns, and there are some. -/
def checkSortKeys (job : StageJob) (keys : List SortKey) : Except Error Unit :=
  if keys.isEmpty then refuse (.noSortKeys job.location.name)
  else (job.schema.checkColumns (keys.map (·.column))).mapError .data

/-- The columns that the kind refers to exist. -/
def checkKeys (job : StageJob) : Except Error Unit :=
  match job.kind with
  | .orderByLocal keys => job.checkSortKeys keys
  | .orderByGlobal keys => job.checkSortKeys keys
  | .shuffle keyColumns => (job.schema.checkColumns keyColumns).mapError .data
  | _ => .ok ()

/-- A job has outputs, its own; the inputs that its kind needs; and keys that exist. -/
def validate (job : StageJob) : Except Error Unit := do
  if job.outputs.isEmpty then refuse (.noOutputs job.location.name)
  job.checkOutputs 0 job.outputs
  job.checkInputs
  job.checkKeys

/-- A job as JSON. -/
def toJson (job : StageJob) : Json :=
  .object [("task_id", job.taskId.toJson), ("location", job.location.toJson),
    ("kind", job.kind.toJson), ("inputs", .array (job.inputs.map Location.toJson)),
    ("outputs", .array (job.outputs.map Location.toJson)), ("schema", job.schema.toJson),
    ("payload", .array (job.payload.map fun b => .integer b.toNat))]

/-- Read a byte. -/
def byteDecoder : Json.Decoder UInt8 := fun scope json =>
  (Json.bounded 0 255 scope json).map fun n => UInt8.ofNat n.toNat

/-- Read a job. -/
def decoder : Json.Decoder StageJob := fun scope json => do
  let fields ← Json.fields?
    ["task_id", "location", "kind", "inputs", "outputs", "schema", "payload"] json
  let scope ← scope.enter?
  let taskId ← Json.field Identifier.decoder scope fields 0
  let location ← Json.field Location.decoder scope fields 1
  let kind ← Json.field JobKind.decoder scope fields 2
  let inputs ← Json.field (Json.list Location.decoder) scope fields 3
  let outputs ← Json.field (Json.list Location.decoder) scope fields 4
  let schema ← Json.field Schema.decoder scope fields 5
  let payload ← Json.fieldOr [] (Json.list byteDecoder) scope fields 6
  some { taskId, location, kind, inputs, outputs, schema, payload }

end StageJob

end StagedQuery

import StagedQuery.Executor.Status
import StagedQuery.Job.Kind
import StagedQuery.Location

/-!
# Errors

Everything that can go wrong when a query is planned, placed, wired up and run. An error
says what went wrong; `Error.message` words it. Errors that another system words (the
operating system, the compressed format, JSON) carry no wording of their own.
-/

namespace StagedQuery

/-- Why a plan cannot be lowered to stage jobs. -/
inductive PlanFault
  | noParallelism
  /-- A node, as described, has another number of inputs than its kind takes. -/
  | inputCount (node : String) (expected found : Nat)
  /-- A partition has another number of values than the table has partition columns. -/
  | partitionValues (table : String) (values columns : Nat)
  /-- A partition filter names no partition column. -/
  | unknownPartitionColumn (column : String)
  /-- A partition filter compares values of different types. -/
  | incomparable (column : String) (actual wanted : Value)
  deriving DecidableEq, Repr

/-- The wording of a planning fault. -/
def PlanFault.message : PlanFault → String
  | noParallelism => "parallelism must be at least 1"
  | inputCount node expected found => s!"{node} node expects {expected} inputs, got {found}"
  | partitionValues table values columns =>
    s!"partition of '{table}' has {values} values for {columns} partition columns"
  | unknownPartitionColumn column => s!"partition filter references unknown column '{column}'"
  | incomparable column actual wanted =>
    s!"cannot compare partition column '{column}' ({actual.display}) with {wanted.display}"

/-- Why a stage job is refused. -/
inductive JobFault
  | noOutputs (executor : String)
  /-- An output is not one of the executor's own, in order. -/
  | strayOutput (executor : String) (index : Nat) (output : Location)
  | scanWithInputs (executor : String)
  /-- A join without inputs on one of its sides. -/
  | oneSidedJoin (executor : String) (left inputs : Nat)
  | unpairedKeys (executor : String) (left right : Nat)
  | noInputs (executor : String) (tag : JobTag)
  | noSortKeys (executor : String)
  /-- The job is for another executor. -/
  | misdelivered (executor : String) (delivered : String)
  | noOperator (tag : JobTag)
  | alreadyHolding (executor : String)
  | notAccepted (executor : String)
  | cannotStart (executor : String) (status : JobStatus)
  | executorExists (executor worker : String)
  /-- An operator met a job of a kind that it does not know. -/
  | wrongKind (operator : String) (tag : JobTag)
  deriving DecidableEq, Repr

/-- The wording of a job fault. -/
def JobFault.message : JobFault → String
  | noOutputs executor => s!"{executor}: job has no outputs"
  | strayOutput executor index output => s!"{executor}: output {index} points at {output.display}"
  | scanWithInputs executor => s!"{executor}: scan takes no inputs"
  | oneSidedJoin executor left inputs =>
    s!"{executor}: join needs two non-empty input groups, got {left} of {inputs} inputs on the left"
  | unpairedKeys executor left right =>
    s!"{executor}: join keys do not pair up ({left} left, {right} right)"
  | noInputs executor tag => s!"{executor}: {tag.display} needs at least one input"
  | noSortKeys executor => s!"{executor}: order-by without sort keys"
  | misdelivered executor delivered => s!"job for {executor} delivered to {delivered}"
  | noOperator tag => s!"no operator registered for {tag.display} jobs"
  | alreadyHolding executor => s!"{executor} already holds a job"
  | notAccepted executor => s!"{executor} has not accepted a job"
  | cannotStart executor status => s!"{executor} cannot start from {status.display}"
  | executorExists executor worker => s!"executor {executor} already exists on {worker}"
  | wrongKind operator tag => s!"{operator} operator cannot run a {tag.display} job"

/-- Why two executors cannot be wired up. -/
inductive ChannelFault
  | writersReady (executor : String)
  | noOutput (executor : String) (index : Nat)
  /-- The executor finished before it published where its outputs are. -/
  | neverPublished (executor : String)
  | notWired (writers outputs readers inputs : Nat)
  /-- The executor was cleared while a reader was taking an output. -/
  | outputStopped
  /-- The executor behind an input answered with another output than the one asked for. -/
  | wrongAnswer (asked answered : Location)
  /-- No connection to a control address; the reason is the system's. -/
  | unreachable (address reason : String)
  /-- No connection to an output; the reason is the system's. -/
  | cannotDial (output : Location) (reason : String)
  deriving DecidableEq, Repr

/-- The wording of a channel fault. -/
def ChannelFault.message : ChannelFault → String
  | writersReady executor => s!"writers of {executor} already set up"
  | noOutput executor index => s!"{executor} has no output {index}"
  | neverPublished executor => s!"{executor} finished before publishing its outputs"
  | notWired writers outputs readers inputs =>
    s!"channels not set up: {writers}/{outputs} writers, {readers}/{inputs} readers"
  | outputStopped => "output bridge stopped by shutdown"
  | wrongAnswer asked answered =>
    s!"asked for {asked.display}, upstream answered {answered.display}"
  | unreachable address reason => s!"cannot reach control plane at {address}: {reason}"
  | cannotDial output reason => s!"cannot dial {output.display}: {reason}"

/-- Why a frame is refused. -/
inductive FrameFault
  | negativeLength (length : Int)
  /-- The announced frame is longer than the reader accepts. -/
  | frameTooLarge (bytes limit : Nat)
  /-- The message in the frame is longer than the reader accepts. -/
  | messageTooLarge (bytes limit : Nat)
  /-- The compressed message is too long for any frame. -/
  | uncountable (bytes : Nat)
  deriving DecidableEq, Repr

/-- The wording of a frame fault. -/
def FrameFault.message : FrameFault → String
  | negativeLength n => s!"negative frame length {n}"
  | frameTooLarge bytes limit => s!"frame of {bytes} bytes exceeds limit of {limit}"
  | messageTooLarge bytes limit => s!"message of {bytes} bytes exceeds limit of {limit}"
  | uncountable bytes => s!"compressed message of {bytes} bytes exceeds frame limit"

/-- Where a stream was cut. -/
inductive CutPoint
  /-- Between frames, or inside a header. -/
  | beforeEnd
  | insideFrame
  | insideBatch
  /-- A peer closed the connection instead of answering. -/
  | beforeAnswer (address : String)
  deriving DecidableEq, Repr

/-- The wording of a cut. -/
def CutPoint.message : CutPoint → String
  | beforeEnd => "stream closed before end-of-stream marker"
  | insideFrame => "frame payload cut short"
  | insideBatch => "end of stream inside a batch"
  | beforeAnswer address => s!"{address} closed without answering"

/-- Why the schema of a stream is refused. -/
inductive SchemaFault
  /-- The stream ended before it announced a schema. -/
  | missing
  /-- The types of the announced columns are not those expected. -/
  | differs (expected received : List DataType × List DataType)
  deriving DecidableEq, Repr

/-- A list of types in messages. -/
def showTypes (types : List DataType) : String :=
  "[" ++ String.intercalate ", " (types.map DataType.name) ++ "]"

/-- The wording of a schema fault. -/
def SchemaFault.message : SchemaFault → String
  | missing => "stream ended before its schema"
  | differs expected received =>
    s!"expected columns {showTypes expected.1} keys {showTypes expected.2}, "
      ++ s!"stream carries columns {showTypes received.1} keys {showTypes received.2}"

/-- Everything that can go wrong. -/
inductive Error
  | noWorkers
  | workerNotFound (name : String)
  | workerRegistered (name : String)
  | executorNotFound (name : String)
  | planning (fault : PlanFault)
  | invalidJob (fault : JobFault)
  | channel (fault : ChannelFault)
  /-- A peer answered with an error, or with an answer that makes no sense. -/
  | remote (message : String)
  /-- An operator failed for a reason of its own. -/
  | taskFailed (message : String)
  | malformedFrame (fault : FrameFault)
  | truncated (cut : CutPoint)
  /-- A message was written after the end of the stream. -/
  | streamFinished
  | compression
  | schemaMismatch (fault : SchemaFault)
  | queryFailed (reason : String)
  /-- A text is not the JSON of the wanted type. -/
  | serialization
  /-- A transport failed; the reason is the system's. -/
  | network (reason : String)
  | data (error : DataError)
  /-- Nothing went wrong yet: the peer has neither sent what is needed, or taken what is
  offered, nor closed the connection. Never reported. -/
  | wouldBlock
  deriving DecidableEq, Repr

/-- The wording of an error. -/
def Error.message : Error → String
  | noWorkers => "No workers available to execute query"
  | workerNotFound name => s!"Worker not found: {name}"
  | workerRegistered name => s!"Worker already registered: {name}"
  | executorNotFound name => s!"Executor not found: {name}"
  | planning fault => s!"Distributed planning error: {fault.message}"
  | invalidJob fault => s!"Invalid stage job: {fault.message}"
  | channel fault => s!"Channel setup error: {fault.message}"
  | remote message => s!"Remote error: {message}"
  | taskFailed message => s!"Task execution failed: {message}"
  | malformedFrame fault => s!"Malformed frame: {fault.message}"
  | truncated cut => s!"Stream truncated: {cut.message}"
  | streamFinished => "Stream already finished"
  | compression => "Compression error"
  | schemaMismatch fault => s!"Schema mismatch: {fault.message}"
  | queryFailed reason => s!"Query failed: {reason}"
  | serialization => "Serialization error"
  | network reason => s!"Network error: {reason}"
  | data error => s!"Query engine error: {error.message}"
  | wouldBlock => "Operation would block"

end StagedQuery

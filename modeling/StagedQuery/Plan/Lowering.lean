import StagedQuery.Plan.Describe
import StagedQuery.Plan.Graph

/-!
# From plans to stage graphs

A plan is lowered bottom-up. Every node places one or more jobs and hands their outputs,
its *streams*, to the node above. A scan has as many streams as the query is parallel;
kinds that look at one row at a time run once for each stream, kinds that need every row
run once on all of them, and order-by and limit run once for each stream and then once on
the results. A join of nested loops hands every left stream the whole right side; a hash
join shuffles both sides by key, so that equal keys meet.

The number of inputs of a node is checked before anything below it is lowered. Nothing is
undone when a job is refused: it stays counted by the scheduler.
-/

namespace StagedQuery

/-- A graph under construction. -/
structure Builder where
  scheduler : Scheduler
  jobs : List StageJob := []

namespace Builder

/-- Place a job, with `outputs` outputs, and check it. -/
def place (kind : JobKind) (inputs : List Location) (outputs : Nat) (schema : Schema)
    (payload : Bytes) : Action Builder StageJob := do
  let builder ← .get
  let taskId := builder.scheduler.names.task builder.scheduler.placed
  let location ← Scheduler.allocate.zoom (·.scheduler) fun b scheduler => { b with scheduler }
  let job : StageJob :=
    { taskId, location, kind, inputs, schema, payload
      outputs := (List.range outputs).map location.withChannel }
  .ofExcept job.validate
  .modify fun b => { b with jobs := b.jobs ++ [job] }
  pure job

/-- Place a job of a node, with one output. -/
def placeOne (node : PlanNode) (kind : JobKind) (inputs : List Location) :
    Action Builder (List Location) := do
  return (← place kind inputs 1 node.schema node.payload).outputs

/-- Place a job of a node for each stream. -/
def placeEach (node : PlanNode) (kind : JobKind) (streams : List Location) :
    Action Builder (List Location) :=
  Action.collect (fun stream => placeOne node kind [stream]) streams

end Builder

/-! ### Scans -/

/-- The items at the positions `j`, `j + p`, `j + 2 p` and so on. -/
def everyNth {α : Type} (p j : Nat) (items : List α) : List α :=
  items.zipIdx.filterMap fun (item, i) => if i % p = j then some item else none

namespace TableScan

/-- Whether a partition has to be scanned. -/
def keeps (table : TableScan) (partition : Partition) : Except Error Bool :=
  if partition.values.length ≠ table.partitionColumns.length then
    .error (.planning (.partitionValues table.table partition.values.length
      table.partitionColumns.length))
  else match table.filter with
    | some filter => filter.keeps table.partitionColumns partition.values
    | none => .ok true

/-- Of some partitions, those that have to be scanned. -/
def keptOf (table : TableScan) : List Partition → Except Error (List Partition)
  | [] => .ok []
  | partition :: partitions => do
    let kept ← table.keeps partition
    let rest ← table.keptOf partitions
    pure (if kept then partition :: rest else rest)

/-- The partitions that have to be scanned. -/
def kept (table : TableScan) : Except Error (List Partition) := table.keptOf table.partitions

/-- The scans that share a table, `p` of them: each takes every `p`-th file, or every
`p`-th of the partitions that have to be scanned. -/
def slices (table : TableScan) (p : Nat) : Except Error (List JobKind) := do
  if table.partitionColumns.isEmpty then
    pure ((List.range p).map fun j => .scan table.table [] (everyNth p j table.files))
  else
    let kept ← table.kept
    pure ((List.range p).map fun j => .scan table.table (everyNth p j kept) [])

end TableScan

/-! ### Nodes -/

/-- An input of a node that has been lowered. -/
structure Side where
  schema : Schema
  streams : List Location

namespace PlanNode

/-- The number of inputs is wrong. -/
def inputFault (node : PlanNode) : Error :=
  .planning (.inputCount node.kind.describe node.kind.arity node.inputs.length)

/-- Place the scans of a table. -/
def placeScans (node : PlanNode) (p : Nat) (table : TableScan) :
    Action Builder (List Location) := do
  let kinds ← .ofExcept (table.slices p)
  Action.collect (fun kind => Builder.placeOne node kind []) kinds

/-- Gather the streams of a side in one, unless they are one. -/
def gather (side : Side) : Action Builder (List Location) := do
  if 1 < side.streams.length then
    return (← Builder.place .aggregate side.streams 1 side.schema []).outputs
  else pure side.streams

/-- Split a side that is a single stream into as many as the query is parallel. -/
def spread (p : Nat) (side : Side) : Action Builder (List Location) := do
  if side.streams.length = 1 ∧ 1 < p then
    return (← Builder.place .balance side.streams p side.schema []).outputs
  else pure side.streams

/-- Place a join of nested loops: one job for each left stream, with the whole right side. -/
def placeJoin (node : PlanNode) (p : Nat) (left right : Side) : Action Builder (List Location) := do
  let streams ← spread p left
  let copies ← Builder.place .duplicate right.streams streams.length right.schema []
  Action.collect (fun (l, r) => Builder.placeOne node (.join 1) [l, r])
    (streams.zip copies.outputs)

/-- Shuffle each stream of a side by key into `p` outputs. -/
def shuffle (p : Nat) (side : Side) (keys : List Nat) : Action Builder (List StageJob) :=
  Action.collect
    (fun stream => do return [← Builder.place (.shuffle keys) [stream] p side.schema []])
    side.streams

/-- Place a hash join: job `i` reads output `i` of every shuffle. -/
def placeHashJoin (node : PlanNode) (p : Nat) (leftKeys rightKeys : List Nat)
    (left right : Side) : Action Builder (List Location) := do
  let lefts ← shuffle p left leftKeys
  let rights ← shuffle p right rightKeys
  let kind : JobKind := .hashJoin lefts.length leftKeys rightKeys
  Action.collect
    (fun i => Builder.placeOne node kind ((lefts ++ rights).filterMap (·.outputs[i]?)))
    (List.range p)

/-- Place a union: stream by stream if the sides have equally many, else in one. -/
def placeUnion (node : PlanNode) (left right : Side) : Action Builder (List Location) :=
  if left.streams.length = right.streams.length then
    Action.collect (fun (l, r) => Builder.placeOne node .union [l, r])
      (left.streams.zip right.streams)
  else Builder.placeOne node .union (left.streams ++ right.streams)

/-- Place the jobs of a node whose inputs have been lowered. -/
def placeJobs (node : PlanNode) (p : Nat) (sides : List Side) : Action Builder (List Location) :=
  match node.kind, sides with
  | .scan table, [] => node.placeScans p table
  | .filter, [side] => Builder.placeEach node .filter side.streams
  | .groupBy, [side] => Builder.placeEach node .groupBy side.streams
  | .aggregateLocal, [side] => Builder.placeEach node .aggregateLocal side.streams
  | .distinctLocal, [side] => Builder.placeEach node .distinctLocal side.streams
  | .select false, [side] => Builder.placeEach node .select side.streams
  | .select true, [side] => do Builder.placeOne node .select (← gather side)
  | .aggregateGlobal, [side] => Builder.placeOne node .aggregateGlobal side.streams
  | .distinctGlobal, [side] => Builder.placeOne node .distinctGlobal side.streams
  | .«show», [side] => Builder.placeOne node .«show» side.streams
  | .insert, [side] => Builder.placeOne node .insert side.streams
  | .orderBy keys, [side] => do
    Builder.placeOne node (.orderByGlobal keys)
      (← Builder.placeEach node (.orderByLocal keys) side.streams)
  | .limit count, [side] => do
    Builder.placeOne node (.limit count) (← Builder.placeEach node (.limit count) side.streams)
  | .join, [left, right] => node.placeJoin p left right
  | .hashJoin leftKeys rightKeys, [left, right] =>
    node.placeHashJoin p leftKeys rightKeys left right
  | .union, [left, right] => node.placeUnion left right
  | _, _ => .fail node.inputFault

mutual

/-- Lower a node and everything below it; its streams. -/
def lower (p : Nat) : PlanNode → Action Builder (List Location)
  | ⟨kind, inputs, schema, payload⟩ => do
    let node : PlanNode := ⟨kind, inputs, schema, payload⟩
    if inputs.length ≠ kind.arity then .fail node.inputFault
    else
      let sides ← lowerInputs p inputs
      node.placeJobs p sides

/-- Lower the inputs of a node from the left. -/
def lowerInputs (p : Nat) : List PlanNode → Action Builder (List Side)
  | [] => pure []
  | node :: nodes => do
    let streams ← lower p node
    let sides ← lowerInputs p nodes
    pure (⟨node.schema, streams⟩ :: sides)

end

/-- Lower a plan, and gather its streams in the sink; the index of the sink. -/
def lowerToSink (plan : PlanNode) (p : Nat) : Action Builder Nat := do
  let streams ← lower p plan
  let index := (← .get).jobs.length
  let _ ← Builder.place .aggregate streams 1 plan.schema []
  pure index

end PlanNode

/-- The stage graph of a plan whose scans are `p` jobs each. -/
def StageGraph.ofPlan (plan : PlanNode) (p : Nat) : Action Scheduler StageGraph := fun scheduler =>
  if p = 0 then (.error (.planning .noParallelism), scheduler)
  else if !scheduler.hasWorkers then (.error .noWorkers, scheduler)
  else
    let (result, builder) := plan.lowerToSink p { scheduler }
    (result.map fun sink => { jobs := builder.jobs, sink }, builder.scheduler)

end StagedQuery

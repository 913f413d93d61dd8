import StagedQuery.Cluster.Control
import StagedQuery.Cluster.Report
import StagedQuery.Plan.Lowering

/-!
# The coordinator

The coordinator knows the workers, places queries on them, hands out the jobs, and keeps
the reports that come back. Jobs are handed out in phases, each for all jobs before the
next begins: every job is accepted, then every output is set up, then every input, and then
every job is run. So nobody ever asks for an output that is not there.

The status of a query follows from the latest reports alone.
-/

namespace StagedQuery

/-- A registered worker, and when it registered. -/
structure Registration where
  info : WorkerInfo
  /-- Later registrations have larger numbers. -/
  number : Nat
  deriving DecidableEq, Repr

/-- Why a query has failed. -/
inductive QueryFault
  | failed (executor reason : String)
  | silent (executor : String) (milliseconds : Nat)
  deriving DecidableEq, Repr

/-- The wording of a failure. -/
def QueryFault.message : QueryFault → String
  | failed executor reason => s!"executor {executor} failed: {reason}"
  | silent executor milliseconds => s!"executor {executor} silent for more than {milliseconds} ms"

/-- Where a query stands. -/
inductive QueryStatus
  /-- No report came in yet. -/
  | pending
  | running
  | completed
  | failed (fault : QueryFault)
  deriving DecidableEq, Repr

/-- A coordinator. -/
structure Coordinator where
  config : CoordinatorSettings := {}
  network : ConnectionSettings := {}
  /-- The registered workers, in no particular order. -/
  workers : List Registration := []
  /-- The number of the next registration. -/
  nextNumber : Nat := 0
  /-- The report of each executor, by the name under which it is kept. -/
  reports : List (String × JobReport) := []

namespace Coordinator

/-! ### Workers -/

/-- The worker of a name. -/
def worker? (c : Coordinator) (name : String) : Option WorkerInfo :=
  (c.workers.find? (·.info.name == name)).map (·.info)

/-- Register a worker under a new name. -/
def register (info : WorkerInfo) : Action Coordinator Unit := fun c =>
  if (c.worker? info.name).isSome then (.error (.workerRegistered info.name), c)
  else
    (.ok (), { c with
      workers := { info, number := c.nextNumber } :: c.workers
      nextNumber := c.nextNumber + 1 })

/-- Remove a worker. -/
def unregister (name : String) : Action Coordinator Unit := fun c =>
  if (c.worker? name).isNone then (.error (.workerNotFound name), c)
  else (.ok (), { c with workers := c.workers.filter (·.info.name != name) })

/-- The workers in the order of their registration. -/
def listWorkers (c : Coordinator) : List WorkerInfo :=
  (c.workers.mergeSort fun a b => a.number ≤ b.number).map (·.info)

/-- A scheduler over the workers of this moment. -/
def scheduler (c : Coordinator) (names : NameSupply) : Scheduler :=
  .create c.listWorkers names

/-- Lower a plan onto the workers. -/
def plan (c : Coordinator) (names : NameSupply) (plan : PlanNode) (parallelism : Option Nat) :
    Except Error StageGraph :=
  (StageGraph.ofPlan plan (parallelism.getD c.config.defaultParallelism) (c.scheduler names)).1

/-! ### Reports -/

/-- Put a report in the place of the one before. -/
def setReport (name : String) (report : JobReport) :
    List (String × JobReport) → List (String × JobReport)
  | [] => [(name, report)]
  | (n, r) :: reports =>
    if n = name then (name, report) :: reports else (n, r) :: setReport name report reports

/-- The report of an executor. -/
def report? (c : Coordinator) (executor : String) : Option JobReport := c.reports.lookup executor

/-- Fold a heartbeat into the report of its executor. -/
def record (now : Nat) (h : Heartbeat) (c : Coordinator) : Coordinator :=
  let report := (c.report? h.location.name).getD (.initial h.location h.taskId 0)
  { c with reports := setReport h.location.name (report.fold now h) c.reports }

/-- Expect reports from every job of a graph from now on. -/
def expect (now : Nat) (graph : StageGraph) (c : Coordinator) : Coordinator :=
  { c with
    reports := graph.jobs.foldl
      (fun reports job =>
        setReport job.location.name (.initial job.location job.taskId now) reports)
      c.reports }

/-- Forget the reports of a graph. -/
def release (graph : StageGraph) (c : Coordinator) : Coordinator :=
  { c with
    reports := c.reports.filter fun (name, _) => !graph.jobs.any (·.location.name == name) }

/-- What a report says of a query at once. -/
def trouble? (c : Coordinator) (now : Nat) (job : StageJob) : Option QueryFault := do
  let report ← c.report? job.location.name
  if report.status = .error then
    some (.failed job.location.name (report.lastError?.getD "unknown error"))
  else if report.isStale now c.config.heartbeatTimeout then
    some (.silent job.location.name c.config.heartbeatTimeout)
  else none

/-- Where a query stands: the first job in trouble decides, then what was reported. -/
def queryStatus (c : Coordinator) (now : Nat) (graph : StageGraph) : QueryStatus :=
  match graph.jobs.findSome? (c.trouble? now) with
  | some fault => .failed fault
  | none =>
    let reports := graph.jobs.filterMap fun job => c.report? job.location.name
    if reports.isEmpty then .pending
    else if (reports.filter (·.status = .succeed)).length = graph.size then .completed
    else .running

/-- Fail if a query has failed. -/
def expectHealthy (c : Coordinator) (now : Nat) (graph : StageGraph) : Except Error Unit :=
  match c.queryStatus now graph with
  | .failed fault => .error (.queryFailed fault.message)
  | _ => .ok ()

/-! ### Dispatch -/

/-- Hand out the jobs of a graph, asking each worker at its address. -/
def handOut {σ : Type} (ask : String → ControlRequest → Action σ Unit) (graph : StageGraph)
    (config : QuerySettings) : Action σ Unit := do
  let phase (request : StageJob → ControlRequest) : Action σ Unit :=
    Action.each (fun job => ask job.location.controlAddress (request job)) graph.jobs
  phase fun job => .accept job config
  phase fun job => .setupWriters job.location.name
  phase fun job => .setupReaders job.location.name
  phase fun job => .run job.location.name

end Coordinator

end StagedQuery

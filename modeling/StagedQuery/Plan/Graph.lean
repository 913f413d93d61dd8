import StagedQuery.Job.StageJob
import StagedQuery.Plan.Placement

/-!
# Stage graphs

A stage graph is the list of the jobs of a query, every job after those it reads from,
and the index of the sink: the job whose one output is the result.
-/

namespace StagedQuery

/-- The jobs of a query. -/
structure StageGraph where
  jobs : List StageJob
  /-- The index of the job whose output is the result. -/
  sink : Nat
  deriving Repr

namespace StageGraph

/-- The number of jobs. -/
def size (graph : StageGraph) : Nat := graph.jobs.length

/-- The job that an executor runs. -/
def job? (graph : StageGraph) (executor : String) : Option StageJob :=
  graph.jobs.find? (·.location.name == executor)

/-- The sink. -/
def sinkJob? (graph : StageGraph) : Option StageJob := graph.jobs[graph.sink]?

/-- The output that holds the result. -/
def sinkOutput? (graph : StageGraph) : Option Location :=
  graph.sinkJob?.bind fun job => job.outputs.head?

/-- A graph as JSON. -/
def toJson (graph : StageGraph) : Json :=
  .object [("jobs", .array (graph.jobs.map StageJob.toJson)), ("sink", .integer graph.sink)]

/-- Read a graph. -/
def decoder : Json.Decoder StageGraph := fun scope json => do
  let fields ← Json.fields? ["jobs", "sink"] json
  let scope ← scope.enter?
  let jobs ← Json.field (Json.list StageJob.decoder) scope fields 0
  let sink ← Json.field Json.natural scope fields 1
  some { jobs, sink }

end StageGraph

end StagedQuery

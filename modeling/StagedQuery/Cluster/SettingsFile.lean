import StagedQuery.Cluster.Settings
import StagedQuery.Location

/-!
# The settings file

One file describes a cluster to every command: the workers, the settings of queries, and
those of the coordinator and of connections. Everything may be left out.
-/

namespace StagedQuery

/-- The contents of a settings file. -/
structure Settings where
  workers : List WorkerInfo := []
  runtime : QuerySettings
  cluster : CoordinatorSettings := {}
  network : ConnectionSettings := {}
  deriving DecidableEq, Repr

namespace Settings

/-- The settings without a file. -/
def default (fresh : Identifier) : Settings := { runtime := { queryId := fresh } }

/-- The settings as JSON. -/
def toJson (s : Settings) : Json :=
  .object [("workers", .array (s.workers.map WorkerInfo.toJson)), ("runtime", s.runtime.toJson),
    ("cluster", s.cluster.toJson), ("network", s.network.toJson)]

/-- Read the settings; `fresh` identifies a query that has no identifier yet. -/
def decoder (fresh : Identifier) : Json.Decoder Settings := fun scope json => do
  let fields ← Json.fields? ["workers", "runtime", "cluster", "network"] json
  let scope ← scope.enter?
  let default := Settings.default fresh
  let workers ← Json.fieldOr [] (Json.list WorkerInfo.decoder) scope fields 0
  let runtime ← Json.fieldOr default.runtime (QuerySettings.decoder fresh) scope fields 1
  let cluster ← Json.fieldOr default.cluster CoordinatorSettings.decoder scope fields 2
  let network ← Json.fieldOr default.network ConnectionSettings.decoder scope fields 3
  some { workers, runtime, cluster, network }

/-- The text of a settings file. -/
def fileText (s : Settings) : String := s.toJson.renderPretty

/-- The worker of a name. -/
def worker? (s : Settings) (name : String) : Option WorkerInfo := s.workers.find? (·.name == name)

/-- The settings of a new query. -/
def queryRuntime (s : Settings) (fresh : Identifier) : QuerySettings :=
  { s.runtime with queryId := fresh }

end Settings

end StagedQuery

import StagedQuery.Cluster.Coordinator
import StagedQuery.CommandLine.Arguments
import StagedQuery.Cluster.SettingsFile

/-!
# Commands

What the commands do: `explain` shows the stage graph of a plan, `run` executes a plan and
shows its rows. A command ends with the exit code 0, with 1 and a message when something
goes wrong, and with 2 when the command line makes no sense.

Files are given by a function, and so are the addresses where the program may listen and the
way a graph is executed.
-/

namespace StagedQuery.CommandLine

/-- How a program ends. -/
structure Exit where
  code : Nat
  output : List String := []
  errors : List String := []
  deriving DecidableEq, Repr

/-- What a command needs from outside. -/
structure World where
  /-- The text of a file. -/
  file : String → Option String
  /-- An identifier that was not used before. -/
  fresh : Identifier
  names : NameSupply
  /-- Whether the program may listen at an address. -/
  listens : String → Bool
  /-- Execute a graph. -/
  execute : StageGraph → QuerySettings → Except Error (List Row)

/-- The steps of a path, without those that stay in place. -/
def stepsOf (path : String) : List String :=
  let steps := path.splitOn "/"
  steps.dropLast.filter (· != ".") ++ steps.getLast?.toList

/-- The text of the file at a path, among files with their paths. -/
def fileAmong (files : List (String × String)) (path : String) : Option String :=
  (files.find? fun file => stepsOf file.1 == stepsOf path).map (·.2)

/-- Whether a host is this machine: `localhost`, or four numbers of which the first is 127 or
all are zero. -/
def isOwnHost (host : String) : Bool :=
  host == "localhost" ||
    match (host.splitOn ".").map fun part => digitsOf? part.toList with
    | [some a, some b, some c, some d] =>
      max (max a b) (max c d) < 256 && (a == 127 || a + b + c + d == 0)
    | _ => false

/-- Whether an address names a port of this machine. -/
def isOwnAddress (address : String) : Bool :=
  match address.splitOn ":" with
  | [host, port] => isOwnHost host && (numberOf? port).any (· < 0x10000)
  | _ => false

/-- Execute a graph where no worker is reached, for a reason. -/
def unreachable (reason : String) (graph : StageGraph) (_ : QuerySettings) : Except Error (List Row) :=
  match graph.jobs.head? with
  | some job =>
    .error (.channel (.unreachable job.location.controlAddress reason))
  | none => .error (.truncated .beforeEnd)

/-- Read a file, and what it says. -/
def World.load {α : Type} (world : World) (what path : String) (decoder : Json.Decoder α) :
    Except String α :=
  match world.file path with
  | none => .error s!"reading {what} {path}"
  | some text =>
    match Json.decodeText decoder text with
    | none => .error s!"parsing {what} {path}"
    | some a => .ok a

/-- A text with blanks up to a width. -/
def padded (width : Nat) (text : String) : String :=
  text ++ String.ofList (List.replicate (width - text.length) ' ')

/-- The line of a job. -/
def jobLine (graph : StageGraph) (job : StageJob) : String :=
  let isSink := (graph.sinkJob?.map (·.location.name)) == some job.location.name
  let marker := if isSink then "sink" else "    "
  let inputs := job.inputs.map fun l => l.name ++ "#" ++ toString l.channel
  marker ++ " " ++ padded 14 job.tag.display ++ " " ++ padded 16 job.location.name ++ " <- ["
    ++ String.intercalate ", " inputs ++ "] -> " ++ toString job.outputs.length ++ " outputs"

/-- The lines of a graph. -/
def graphLines (graph : StageGraph) : List String :=
  s!"Stage graph ({graph.size} jobs)" :: graph.jobs.map (jobLine graph)

/-- The lines of a result. -/
def resultLines (rows : List Row) (query : Identifier) : List String :=
  rows.map (fun row => String.intercalate " | " (row.vals.map Value.display))
    ++ [s!"{rows.length} rows ({query.queryName})"]

/-- A coordinator with the workers of the settings. -/
def coordinatorOf (settings : Settings) : Except Error Coordinator :=
  match Action.each Coordinator.register settings.workers
    { config := settings.cluster, network := settings.network } with
  | (.ok (), c) => .ok c
  | (.error e, _) => .error e

/-- The plan that the options name, and a coordinator for it. -/
def World.prepare (world : World) (settings : Settings) (options : Given) :
    Except String (PlanNode × Coordinator) := do
  let plan ← world.load "plan" ((options.lookup "plan").getD "") PlanNode.decoder
  let coordinator ← (coordinatorOf settings).mapError Error.message
  pure (plan, coordinator)

/-- The graph of a plan. -/
def World.graph (world : World) (plan : PlanNode) (coordinator : Coordinator) (options : Given) :
    Except String StageGraph :=
  let parallelism := (options.lookup "parallelism").bind numberOf?
  (coordinator.plan world.names plan parallelism).mapError Error.message

/-- Show a graph, as JSON or line by line. -/
def World.explain (world : World) (settings : Settings) (options : Given) :
    Except String (List String) := do
  let (plan, coordinator) ← world.prepare settings options
  let graph ← world.graph plan coordinator options
  if (options.lookup "json").isSome then pure [graph.toJson.renderPretty]
  else pure (graphLines graph)

/-- Execute a graph, and show the rows. If heartbeats are wanted, the program listens for them
before it plans. -/
def World.run (world : World) (settings : Settings) (options : Given) :
    Except String (List String) := do
  let (plan, coordinator) ← world.prepare settings options
  let config := settings.queryRuntime world.fresh
  match config.coordinator with
  | some address =>
    if !world.listens address then throw s!"binding heartbeat listener {address}"
  | none => pure ()
  let graph ← world.graph plan coordinator options
  let rows ← (world.execute graph config).mapError Error.message
  pure (resultLines rows config.queryId)

/-- Where a worker is to listen. -/
def World.worker (settings : Settings) (options : Given) : Except String WorkerInfo :=
  let name := (options.lookup "name").getD ""
  let host := options.lookup "host"
  let port := (options.lookup "port").bind portOf?
  match settings.worker? name, host, port with
  | _, some host, some port => .ok { name, host, controlPort := port, dataPort := 0 }
  | some entry, host, port =>
    .ok { name, host := host.getD entry.host, controlPort := port.getD entry.controlPort
          dataPort := entry.dataPort }
  | none, _, _ => .error s!"worker {name} is not in the config; pass --host and --port"

/-- Carry out a request. -/
def World.perform (world : World) (request : Request) : Except String (List String) := do
  let settings ← match request.options.lookup "config" with
    | some path => world.load "config" path (Settings.decoder world.fresh)
    | none => pure (Settings.default world.fresh)
  match request.command.name with
  | "explain" => world.explain settings request.options
  | "run" => world.run settings request.options
  | "worker" => do
    let info ← World.worker settings request.options
    throw s!"binding {info.host}:{info.controlPort.toNat}"
  | _ => do
    let _ ← (coordinatorOf settings).mapError Error.message
    let host := (request.options.lookup "host").getD "0.0.0.0"
    let port := ((request.options.lookup "port").bind portOf?).getD 7070
    throw s!"binding {host}:{port.toNat}"

/-- The lines of texts, each of which ends a line. -/
def linesOf (texts : List String) : List String := texts.flatMap (·.splitOn "\n")

/-- Carry out a command line. -/
def World.main (world : World) (arguments : List String) : Exit :=
  match read arguments with
  | .error .usage => { code := 2 }
  | .error .version => { code := 0, output := [programName ++ " " ++ programVersion] }
  | .error (.help topic) => { code := 0, output := topic.text }
  | .ok request =>
    match world.perform request with
    | .ok output => { code := 0, output := linesOf output }
    | .error message => { code := 1, errors := linesOf [s!"Error: {message}"] }

end StagedQuery.CommandLine

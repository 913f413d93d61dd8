import StagedQuery.Proofs.Plan.Ranges

/-!
# Planned jobs reach their workers

A plan comes as a text, and its jobs leave as texts. Between the two nothing is lost but what the
text of a floating-point number loses: the request that hands out a job is read as one for the
same job exactly if every value of the partitions that the job scans is legible
(`StageGraph.ofPlan_reaches_iff`). A number of single precision that is too large is read as
infinity, for which there is no text, so not every plan that is read can be dispatched
(`StageGraph.infinite_value_does_not_reach`).
-/

namespace StagedQuery

/-- The worker reads the request that hands out a job as one for the same job. -/
def StageJob.Reaches (job : StageJob) (config : QuerySettings) (fresh : Identifier) : Prop :=
  ∃ config', Json.decodeBytes (ControlRequest.decoder fresh)
    (ControlRequest.accept job config).toJson.bytes = some (.accept job config')

theorem StageJob.reaches_iff {job : StageJob} {config : QuerySettings} (hjob : job.In64)
    (hconfig : config.In64) (fresh : Identifier) :
    job.Reaches config fresh ↔ job.kind.Legible := by
  have hrequest : (ControlRequest.accept job config).In64 := ⟨hjob, hconfig⟩
  have hread (config' : QuerySettings) :=
    ControlRequest.decoder_accept hrequest fresh (show 9 ≤ Json.Scope.top.depth by decide) config'
  rw [Reaches, Json.decodeBytes_bytes _ _ (ControlRequest.writable_accept hrequest)]
  constructor
  · rintro ⟨config', h⟩
    exact ((hread config').mp h).1
  · intro hlegible
    exact ⟨config, (hread config).mpr ⟨hlegible, rfl⟩⟩

/-- A job of a plan that was read reaches its worker exactly if each value that it scans is
legible. -/
theorem StageGraph.ofPlan_reaches_iff {text : Bytes} {plan : PlanNode}
    (hread : Json.decodeBytes PlanNode.decoder text = some plan) {p : Nat} (hp : p < UInt64.size)
    {scheduler scheduler' : Scheduler} {graph : StageGraph}
    (h : StageGraph.ofPlan plan p scheduler = (.ok graph, scheduler')) {config : QuerySettings}
    (hconfig : config.In64) (fresh : Identifier) :
    ∀ job ∈ graph.jobs, job.Reaches config fresh ↔ job.kind.Legible := by
  intro job hjob
  have hjob := ofPlan_in64 (PlanNode.in64_of_decoded hread) hp h job hjob
  exact job.reaches_iff hjob hconfig fresh

/-- The text of a plan that scans a table with one partition, of the given value. -/
def PlanNode.scanText (value : Json) : Bytes :=
  let partition : Json := .object [("values", .array [value]), ("files", .array [.string "f"])]
  let kind : Json :=
    .object [("type", .string "scan"), ("table", .string "t"),
      ("partition_columns", .array [.string "p"]), ("partitions", .array [partition])]
  (Json.object [("kind", kind), ("schema", .object [("fields", .array [])])]).bytes

/-- The graph of a plan that was read, for two workers. -/
def StageGraph.ofText? (text : Bytes) : Option StageGraph :=
  (Json.decodeBytes PlanNode.decoder text).bind fun plan => (ofPlan plan 2 .twoWorkers).1.toOption

theorem StageGraph.ofText?_eq_some {text : Bytes} {graph : StageGraph}
    (h : ofText? text = some graph) :
    ∃ plan scheduler, Json.decodeBytes PlanNode.decoder text = some plan ∧
      ofPlan plan 2 .twoWorkers = (.ok graph, scheduler) := by
  obtain ⟨plan, hplan, h⟩ := Option.bind_eq_some_iff.mp h
  rcases hgraph : ofPlan plan 2 .twoWorkers with ⟨_ | graph', scheduler⟩
  · rw [hgraph] at h
    cases h
  · rw [hgraph] at h
    cases h
    exact ⟨plan, scheduler, hplan, hgraph⟩

/-- A partition of the value `1.5`. -/
theorem StageGraph.ofPlan_reaches_double :
    ∃ plan graph scheduler,
      Json.decodeBytes PlanNode.decoder
        (PlanNode.scanText (.object [("Float64", .float 0x3ff8000000000000)])) = some plan ∧
      ofPlan plan 2 .twoWorkers = (.ok graph, scheduler) ∧ graph.jobs.length = 3 ∧
      ∀ job ∈ graph.jobs, job.Reaches { queryId := default } default := by
  have hgraph : (ofText? (PlanNode.scanText (.object [("Float64", .float 0x3ff8000000000000)]))).any
      (fun graph => graph.jobs.length = 3 ∧ ∀ job ∈ graph.jobs, job.kind.Legible) = true := by
    decide +kernel
  obtain ⟨graph, htext, hgraph⟩ := (Option.any_eq_true _ _).mp hgraph
  obtain ⟨hlength, hlegible⟩ := of_decide_eq_true hgraph
  obtain ⟨plan, scheduler, hplan, h⟩ := ofText?_eq_some htext
  refine ⟨plan, graph, scheduler, hplan, h, hlength, fun job hjob => ?_⟩
  have hconfig := QuerySettings.in64_default default
  exact (ofPlan_reaches_iff hplan (by decide) h hconfig default job hjob).mpr (hlegible job hjob)

/-- A partition of the value `1e39`, which is read as infinity. -/
theorem StageGraph.infinite_value_does_not_reach :
    ∃ plan graph scheduler,
      Json.decodeBytes PlanNode.decoder
        (PlanNode.scanText (.object [("Float32", .float 0x48078287f49c4a1d)])) = some plan ∧
      ofPlan plan 2 .twoWorkers = (.ok graph, scheduler) ∧
      ∃ job ∈ graph.jobs, ¬job.Reaches { queryId := default } default := by
  have hgraph : (ofText? (PlanNode.scanText (.object [("Float32", .float 0x48078287f49c4a1d)]))).any
      (fun graph => ∃ job ∈ graph.jobs, ∃ p ∈ job.kind.partitions, .float32 0x7f800000 ∈ p.values) =
        true := by
    decide +kernel
  obtain ⟨graph, htext, hgraph⟩ := (Option.any_eq_true _ _).mp hgraph
  obtain ⟨job, hjob, p, hp, hv⟩ := of_decide_eq_true hgraph
  obtain ⟨plan, scheduler, hplan, h⟩ := ofText?_eq_some htext
  refine ⟨plan, graph, scheduler, hplan, h, job, hjob, fun hreaches => ?_⟩
  have hin64 := ofPlan_in64 (PlanNode.in64_of_decoded hplan) (by decide) h job hjob
  have hconfig := QuerySettings.in64_default default
  have hlegible := (job.reaches_iff hin64 hconfig default).mp hreaches
  exact Value.not_legible_float32 (by decide +kernel) (hlegible p hp _ hv)

end StagedQuery

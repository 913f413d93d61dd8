import StagedQuery.Proofs.Cluster.Execution

/-!
# Failures never look like short results

When an operator fails, whatever it has written is left without the marker at its end, so that every
reader of it fails too (`Unended.broken`). The operator of the job that reads it cannot succeed,
because it would have to come to the end of that input first. So a failure goes on from job to job
(`StageGraph.Runs.fails_next`), and as the outputs of every job lead to the sink, it gets there: no
reader of the result takes it for a result that is short (`StageGraph.failure_reaches_sink`).
-/

namespace StagedQuery

/-- No reader of the stream, or of a part of it, gets to a clean end. -/
def Broken (stream : Bytes) : Prop :=
  ∀ r : RowReader, r.Fresh → r.frames.rest <+: stream →
    ∃ e, (RowReader.drain r).1.fault = some e ∧ e.Reportable r.frames.closed

theorem Unended.broken {stream : Bytes} (h : Unended stream) : Broken stream :=
  fun _ hr hp => RowReader.drain_unended (hr.open h hp)

namespace Work

variable {work : Work}

/-- The operator has failed, or has not come to its end. -/
def Fails (work : Work) : Prop := ∃ e, work.ended = .error e

/-- The reader gets to a clean end: without an error, right behind the marker. -/
def ReadToEnd (r : RowReader) : Prop :=
  (RowReader.drain r).1.fault = none ∧ (r.frames.finished = false →
    ∃ front, r.frames.rest = front ++ (endMarker ++ (RowReader.drain r).2.frames.rest))

theorem readToEnd_of_fault {r : RowReader} (h : (RowReader.drain r).1.fault = none) :
    ReadToEnd r :=
  ⟨h, fun hf => RowReader.drain_marker hf h⟩

/-- An operator that has succeeded has come to the end of every input. -/
theorem fault_eq_none (h : work.operator.ReadsToEnd work.job)
    (hlength : work.readers.length = work.job.inputs.length) (hok : ¬ work.Fails) :
    ∀ r ∈ work.readers, (RowReader.drain r).1.fault = none := by
  have hinputs : work.deliveries.length = work.job.inputs.length :=
    work.length_deliveries.trans hlength
  rcases hrun : work.operator work.job work.deliveries { outputs := work.writers } with
    ⟨e | ⟨⟩, stage⟩
  · exact absurd ⟨e, congrArg Prod.fst hrun⟩ hok
  · exact forall_mem_deliveries.mp (h work.deliveries _ stage hinputs hrun)

/-- Whatever is on the outputs of an operator that has failed has not ended. -/
theorem Fails.unended (h : work.Fails) (ho : work.operator.OnlyWrites work.job)
    (hw : ∀ w ∈ work.writers, ∃ schema, w.Blank schema) :
    ∀ w ∈ work.outcome.outputs, Unended w.frames.sink.bytes ∧
      (work.outcome.isWaiting = false → 0 < w.frames.sink.shutdowns) := by
  obtain ⟨e, he⟩ := h
  obtain ⟨hresult, hall⟩ := Operator.perform_unended ho hw he
  intro w hmem
  obtain ⟨hunended, hshutdowns⟩ := hall w hmem
  refine ⟨hunended, fun hends => hshutdowns ?_⟩
  rintro rfl
  rw [Outcome.isWaiting, outcome, hresult] at hends
  cases hends

end Work

namespace StageGraph

namespace Runs

variable {registry : Registry} {graph : StageGraph} {works : List Work}
  {streams : Location → Sink}

/-- Nothing that a failed operator was to write has ended. -/
theorem stream_unended (h : graph.Runs registry works streams) {work : Work} (hw : work ∈ works)
    (ho : work.operator.OnlyWrites work.job) (hfails : work.Fails) {output : Location}
    (hout : output ∈ work.job.outputs) :
    Unended (streams output).bytes ∧
      (work.outcome.isWaiting = false → 0 < (streams output).shutdowns) := by
  obtain ⟨w, hmem, hsink⟩ := h.stream_of_mem hw hout
  rw [hsink]
  exact hfails.unended ho (fun w hw' => ⟨_, (h.writers work hw).2 w hw'⟩) w hmem

/-- A failure goes on to who reads from the job. -/
theorem fails_next (h : graph.Runs registry works streams)
    (hf : ∀ work ∈ works, work.operator.Faithful work.job) {i j : Nat} (hfeeds : graph.Feeds i j)
    (hi : ∃ work, works[i]? = some work ∧ work.Fails) :
    ∃ work, works[j]? = some work ∧ work.Fails := by
  obtain ⟨source, reader, hsource, hreader, output, hout, hin⟩ := hfeeds
  obtain ⟨work, hwork, hfails⟩ := hi
  obtain ⟨_, hwork', rfl⟩ := h.work_at hsource
  obtain rfl := Option.some.inj (hwork.symm.trans hwork')
  obtain ⟨next, hnext, rfl⟩ := h.work_at hreader
  have hmem := List.mem_of_getElem? hwork
  have hmem' := List.mem_of_getElem? hnext
  refine ⟨next, hnext, ?_⟩
  by_contra hok
  obtain ⟨hunended, -⟩ := h.stream_unended hmem (hf work hmem).onlyWrites hfails hout
  obtain ⟨r, hr, hfresh, hprefix⟩ := h.reader_of_mem hmem' hin
  obtain ⟨e, hfault, -⟩ := hunended.broken r hfresh hprefix
  have hclean := Work.fault_eq_none (hf next hmem').readsToEnd (h.length_readers hmem') hok r hr
  rw [hclean] at hfault
  cases hfault

/-- A failure goes wherever the outputs lead to. -/
theorem fails_along (h : graph.Runs registry works streams)
    (hf : ∀ work ∈ works, work.operator.Faithful work.job) {i j : Nat}
    (hpath : Relation.ReflTransGen graph.Feeds i j)
    (hi : ∃ work, works[i]? = some work ∧ work.Fails) :
    ∃ work, works[j]? = some work ∧ work.Fails := by
  induction hpath with
  | refl => exact hi
  | tail _ hfeeds ih => exact h.fails_next hf hfeeds ih

end Runs

/-- In the graph of a plan everything leads to the one output of the sink. -/
theorem ofPlan_leads {plan : PlanNode} {p : Nat} {scheduler scheduler' : Scheduler}
    {graph : StageGraph} (h : StageGraph.ofPlan plan p scheduler = (.ok graph, scheduler'))
    (hn : (graph.jobs.map (·.location.name)).Nodup) :
    ∃ sink output, graph.jobs[graph.sink]? = some sink ∧ sink.outputs = [output] ∧
      ∀ i < graph.jobs.length, Relation.ReflTransGen graph.Feeds i graph.sink := by
  obtain ⟨sink, hwiring, hget, houtputs⟩ := ofPlan_wiring h
  have hnodup := StageJob.nodup_flatMap_outputs hwiring.valid hn
  refine ⟨sink, _, hget, houtputs, reaches_last hwiring hnodup ?_⟩
  intro i job hi hne output hout hout'
  exact hne (index_unique hnodup hi hget hout hout')

/-- A built-in operator succeeds only if it has read every input up to its marker, and when it
fails, none of its outputs has one: no reader of it gets to a clean end. So in every run of the
graph of a plan whose other operators read their inputs to the end too and leave the ends of their
outputs to the executor, no reader of the result gets to a clean end if the operator of any job has
failed; and once nobody waits any more, that is because the stream was shut down. -/
theorem failure_reaches_sink :
    (∀ (tag : JobTag) (work : Work), Registry.builtins.get? tag = some work.operator →
      (work.ended = .ok () → ∀ r ∈ work.readers, Work.ReadToEnd r) ∧
      ∀ e, work.ended = .error e → (∀ w ∈ work.writers, ∃ schema, w.Blank schema) →
        ∀ sink ∈ work.outcome.streams, Unended sink.bytes ∧ Broken sink.bytes) ∧
    ∀ (plan : PlanNode) (p : Nat) (scheduler scheduler' : Scheduler) (graph : StageGraph)
      (registry : Registry) (works : List Work) (streams : Location → Sink),
      StageGraph.ofPlan plan p scheduler = (.ok graph, scheduler') →
      (graph.jobs.map (·.location.name)).Nodup →
      graph.Runs registry works streams →
      (∀ work ∈ works, Registry.builtins.get? work.job.tag = some work.operator ∨
        work.operator.Faithful work.job) →
      (∃ work ∈ works, ∃ e, work.ended = .error e) →
      ∃ output, graph.sinkOutput? = some output ∧ Unended (streams output).bytes ∧
        Broken (streams output).bytes ∧
        ((∀ work ∈ works, work.outcome.isWaiting = false) → 0 < (streams output).shutdowns) := by
  constructor
  · intro tag work hget
    obtain ⟨hreads, hwrites⟩ := Registry.builtins_contract (Registry.get?_mem hget) work.job
    constructor
    · intro hok
      rcases hrun : work.operator work.job work.deliveries { outputs := work.writers } with
        ⟨result, stage⟩
      obtain rfl : result = .ok () := (congrArg Prod.fst hrun).symm.trans hok
      have hfaults := hreads work.deliveries _ stage hrun
      exact fun r hr => Work.readToEnd_of_fault (Work.forall_mem_deliveries.mp hfaults r hr)
    · intro e he hblank sink hsink
      obtain ⟨w, hw, rfl⟩ := List.mem_map.mp hsink
      obtain ⟨hunended, -⟩ := Work.Fails.unended ⟨e, he⟩ hwrites hblank w hw
      exact ⟨hunended, hunended.broken⟩
  · intro plan p scheduler scheduler' graph registry works streams hplan hn hruns hops hfails
    obtain ⟨sink, output, hsink, houtputs, hleads⟩ := ofPlan_leads hplan hn
    have hf : ∀ work ∈ works, work.operator.Faithful work.job := by
      intro work hw
      rcases hops work hw with hget | hfaithful
      · exact Registry.builtins_faithful (Registry.get?_mem hget) work.job
      · exact hfaithful
    obtain ⟨work, hw, hfailed⟩ := hfails
    obtain ⟨i, hi⟩ := List.mem_iff_getElem?.mp hw
    have hlt : i < graph.jobs.length := by
      rw [← hruns.jobs, List.length_map]
      exact (List.getElem?_eq_some_iff.mp hi).1
    obtain ⟨last, hlast, hlastFails⟩ :=
      hruns.fails_along hf (hleads i hlt) ⟨work, hi, hfailed⟩
    obtain ⟨_, hlast', rfl⟩ := hruns.work_at hsink
    obtain rfl := Option.some.inj (hlast.symm.trans hlast')
    have hmem := List.mem_of_getElem? hlast
    have hout : output ∈ last.job.outputs := houtputs ▸ List.mem_singleton_self output
    obtain ⟨hunended, hshutdowns⟩ :=
      hruns.stream_unended hmem (hf last hmem).onlyWrites hlastFails hout
    refine ⟨output, ?_, hunended, hunended.broken, fun hall => hshutdowns (hall last hmem)⟩
    rw [sinkOutput?, sinkJob?, hsink, Option.bind_some, houtputs]
    rfl

end StageGraph

/-- A limit of what two scans find, the second of which cannot read its file. -/
def PlanNode.unreadable : PlanNode :=
  let schema : Schema := { fields := [⟨"n", .int64, true⟩] }
  let scan : PlanNode := ⟨.scan { table := "t", files := ["1", "bad"] }, [], schema, []⟩
  ⟨.limit 2, [scan], schema, []⟩

/-- A scan of a file that cannot be read fails. -/
theorem Work.fails_of_bad {work : Work} (ho : work.operator = Operator.scanNumbers)
    (hk : work.job.kind = .scan "t" [] ["bad"]) : ∃ e, work.ended = .error e := by
  refine ⟨.taskFailed "unreadable file bad", ?_⟩
  rw [Work.ended, ho, Operator.scanNumbers, hk]
  rfl

theorem StageGraph.failure_reaches_sink_unreadable :
    ∃ graph scheduler, StageGraph.ofPlan .unreadable 2 .twoWorkers = (.ok graph, scheduler) ∧
      graph.jobs.length = 6 ∧ ∃ e, (graph.result { queryId := ⟨0⟩ }
        (graph.run .withSamples { queryId := ⟨0⟩ })).fault = some e := by
  have hgraph : (StageGraph.ofPlan .unreadable 2 .twoWorkers).1.toOption.any (fun graph =>
      graph.jobs.length = 6 ∧ (graph.jobs.map (·.location.name)).Nodup ∧
        (∀ job ∈ graph.jobs, Registry.withSamples.contains job.tag) ∧
        ∃ job ∈ graph.jobs, job.kind = .scan "t" [] ["bad"]) = true := by
    decide +kernel
  rcases h : StageGraph.ofPlan .unreadable 2 .twoWorkers with ⟨_ | graph, scheduler⟩
  · rw [h] at hgraph
    cases hgraph
  · rw [h] at hgraph
    obtain ⟨hlength, hnames, hcontains, job, hjob, hkind⟩ := of_decide_eq_true hgraph
    obtain ⟨works, hruns, -, hfaithful⟩ := ofPlan_runs { queryId := ⟨0⟩ } h hnames hcontains
    obtain ⟨work, hw, rfl⟩ := hruns.work_of_mem hjob
    have hscan : work.operator = Operator.scanNumbers := by
      have hget := hruns.operator work hw
      rw [StageJob.tag, hkind] at hget
      exact (Option.some.inj hget).symm
    obtain ⟨output, hout, -, hbroken, -⟩ := failure_reaches_sink.2 .unreadable 2 .twoWorkers
      scheduler graph .withSamples works _ h hnames hruns
      (fun work hw => .inr (hfaithful work hw))
      ⟨work, hw, Work.fails_of_bad hscan hkind⟩
    obtain ⟨e, hfault, -⟩ := hbroken (QuerySettings.reader { queryId := ⟨0⟩ } _) ⟨rfl, rfl⟩
      List.prefix_rfl
    refine ⟨graph, scheduler, rfl, hlength, e, ?_⟩
    rw [result, hout]
    exact hfault

end StagedQuery

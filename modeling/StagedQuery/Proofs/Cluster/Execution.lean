import StagedQuery.Cluster.Run
import StagedQuery.Executor.Lifecycle
import StagedQuery.Proofs.Operator.Contract
import StagedQuery.Proofs.Plan.Wiring

/-!
# Runs of a graph

The executors of a graph run at the same time, and over connections that may break.
`StageGraph.Runs` says what is left of that once it is over, in whatever order it has happened: each
executor had the operator of its job, blank writers for its outputs, and for its inputs readers of
what is now on these streams, or of a part of it if the connection broke before; and what is now on
its outputs is what its work has put there.

`StageGraph.run`, where one job runs after the other, is such a run (`StageGraph.run_runs`), as long
as the executors have names of their own and the operators leave the outputs where they are.
-/

namespace StagedQuery

/-! ### The work of one executor -/

namespace Work

/-- What the readers bring. -/
def deliveries (work : Work) : List Delivery := work.readers.map fun r => (RowReader.drain r).1

/-- How the operator ends. -/
def ended (work : Work) : Except Error Unit :=
  (work.operator work.job work.deliveries { outputs := work.writers }).1

/-- How the work ends. -/
def outcome (work : Work) : Outcome := work.operator.perform work.job work.deliveries work.writers

/-- What became of the job. -/
def jobRun (work : Work) : JobRun := ⟨work.job, work.outcome⟩

/-- The work is on all of what the streams bring, on a transport that takes everything. -/
structure Undisturbed (config : QuerySettings) (streams : Location → Sink)
    (work : Work) : Prop where
  readers_eq : work.readers = work.job.inputs.map fun l => config.reader (streams l)
  writers_eq : work.writers = work.job.outputs.map fun _ => config.writer work.job.schema {}

@[simp] theorem length_deliveries (work : Work) : work.deliveries.length = work.readers.length :=
  List.length_map _

theorem forall_mem_deliveries {work : Work} {p : Delivery → Prop} :
    (∀ d ∈ work.deliveries, p d) ↔ ∀ r ∈ work.readers, p (RowReader.drain r).1 :=
  List.forall_mem_map

/-- The work on these jobs has succeeded. -/
def Succeeded (works : List Work) (jobs : List StageJob) : Prop :=
  ∀ work ∈ works, work.job ∈ jobs → work.outcome.result = .ok ()

end Work

/-! ### Runs -/

namespace StageGraph

/-- The jobs of a graph were run by these works, which have left these streams. -/
structure Runs (registry : Registry) (graph : StageGraph) (works : List Work)
    (streams : Location → Sink) : Prop where
  jobs : works.map (·.job) = graph.jobs
  operator : ∀ work ∈ works, registry.get? work.job.tag = some work.operator
  /-- An input is what is on the stream, or a part of it. -/
  readers : ∀ work ∈ works, List.Forall₂
    (fun input r => RowReader.Fresh r ∧ r.frames.rest <+: (streams input).bytes)
    work.job.inputs work.readers
  /-- Nothing is on the outputs before. -/
  writers : ∀ work ∈ works, work.writers.length = work.job.outputs.length ∧
    ∀ w ∈ work.writers, w.Blank work.job.schema
  /-- What is on the streams is what was put there. -/
  outputs : ∀ work ∈ works, work.job.outputs.map streams = work.outcome.streams

namespace Runs

variable {registry : Registry} {graph : StageGraph} {works : List Work}
  {streams : Location → Sink}

/-- Every job has its work. -/
theorem work_at (h : graph.Runs registry works streams) {i : Nat} {job : StageJob}
    (hi : graph.jobs[i]? = some job) : ∃ work, works[i]? = some work ∧ work.job = job := by
  rw [← h.jobs, List.getElem?_map] at hi
  exact Option.map_eq_some_iff.mp hi

theorem work_of_mem (h : graph.Runs registry works streams) {job : StageJob}
    (hj : job ∈ graph.jobs) : ∃ work ∈ works, work.job = job := by
  rw [← h.jobs] at hj
  exact List.mem_map.mp hj

/-- The reader of an input. -/
theorem reader_of_mem (h : graph.Runs registry works streams) {work : Work} (hw : work ∈ works)
    {input : Location} (hin : input ∈ work.job.inputs) :
    ∃ r ∈ work.readers, r.Fresh ∧ r.frames.rest <+: (streams input).bytes := by
  obtain ⟨i, hi, rfl⟩ := List.mem_iff_getElem.mp hin
  have hreaders := List.forall₂_iff_get.mp (h.readers work hw)
  have hlt : i < work.readers.length := hreaders.1 ▸ hi
  exact ⟨work.readers[i], List.getElem_mem hlt, hreaders.2 i hi hlt⟩

theorem length_readers (h : graph.Runs registry works streams) {work : Work} (hw : work ∈ works) :
    work.readers.length = work.job.inputs.length := (h.readers work hw).length_eq.symm

/-- What is on an output. -/
theorem output_at (h : graph.Runs registry works streams) {work : Work} (hw : work ∈ works)
    {i : Nat} {output : Location} (hi : work.job.outputs[i]? = some output) :
    ∃ w, work.outcome.outputs[i]? = some w ∧ streams output = w.frames.sink := by
  have hstream : work.outcome.streams[i]? = some (streams output) := by
    rw [← h.outputs work hw, List.getElem?_map, hi]
    rfl
  rw [Outcome.streams, List.getElem?_map] at hstream
  obtain ⟨w, hget, hsink⟩ := Option.map_eq_some_iff.mp hstream
  exact ⟨w, hget, hsink.symm⟩

theorem stream_of_mem (h : graph.Runs registry works streams) {work : Work} (hw : work ∈ works)
    {output : Location} (hout : output ∈ work.job.outputs) :
    ∃ w ∈ work.outcome.outputs, streams output = w.frames.sink := by
  obtain ⟨i, hi⟩ := List.mem_iff_getElem?.mp hout
  obtain ⟨w, hget, hsink⟩ := h.output_at hw hi
  exact ⟨w, List.mem_of_getElem? hget, hsink⟩

end Runs

/-- The jobs of a plan, wired up: what nobody reads is the output of the sink. -/
theorem ofPlan_wiring {plan : PlanNode} {p : Nat} {scheduler scheduler' : Scheduler}
    {graph : StageGraph} (h : StageGraph.ofPlan plan p scheduler = (.ok graph, scheduler')) :
    ∃ sink : StageJob, Wiring [] graph.jobs sink.outputs ∧
      graph.jobs[graph.sink]? = some sink ∧ sink.outputs = [sink.location.withChannel 0] := by
  obtain ⟨jobs, streams, sink, hlowered, hsink, hjobs, hindex⟩ := ofPlan_lowered h
  refine ⟨sink, ?_, by simp [hjobs, hindex], hsink.outputs_eq⟩
  rw [hjobs]
  exact hlowered.wiring.append (.single hsink)

/-! ### One job after the other -/

theorem streamAt_eq {runs : List JobRun}
    (hn : ((runs.flatMap JobRun.streams).map fun pair => (pair.1.name, pair.1.channel)).Nodup)
    {output : Location} {sink : Sink} (h : (output, sink) ∈ runs.flatMap JobRun.streams) :
    streamAt runs output = sink := by
  unfold streamAt
  dsimp only
  generalize hfind : List.find? _ _ = found
  cases found with
  | none =>
    have hnone := List.find?_eq_none.mp hfind _ h
    simp at hnone
  | some found =>
    have hkey := List.find?_some hfind
    rw [Bool.and_eq_true, beq_iff_eq, beq_iff_eq] at hkey
    obtain rfl := List.inj_on_of_nodup_map hn (List.mem_of_find?_eq_some hfind) h
      (Prod.ext hkey.1 hkey.2)
    rfl

/-- Executors with names of their own have outputs that differ in name or channel. -/
theorem nodup_keys {jobs : List StageJob} (hv : ∀ job ∈ jobs, job.validate = .ok ())
    (hn : (jobs.map (·.location.name)).Nodup) :
    ((outputsOf jobs).map fun l => (l.name, l.channel)).Nodup := by
  refine (StageJob.nodup_flatMap_outputs hv hn).map_on ?_
  intro a ha b hb hkey
  obtain ⟨job, hjob, haout⟩ := List.mem_flatMap.mp ha
  obtain ⟨job', hjob', hbout⟩ := List.mem_flatMap.mp hb
  obtain ⟨hname, hchannel⟩ := Prod.mk.inj hkey
  rw [StageJob.name_of_mem_outputs (hv job hjob) haout,
    StageJob.name_of_mem_outputs (hv job' hjob') hbout] at hname
  obtain rfl := List.inj_on_of_nodup_map hn hjob hjob' hname
  have hchannels := StageJob.checkOutputs_eq_ok.mp (StageJob.validate_eq_ok.mp (hv job hjob)).2.1
  have hnodup : (job.outputs.map (·.channel)).Nodup := hchannels.2 ▸ List.nodup_range'
  exact List.inj_on_of_nodup_map hnodup haout hbout hchannel

/-- The work of a job that is run after others. -/
def workAfter (config : QuerySettings) (runs : List JobRun) (job : StageJob)
    (operator : Operator) : Work where
  operator
  job
  config
  readers := job.inputs.map fun l => config.reader (streamAt runs l)
  writers := job.outputs.map fun _ => config.writer job.schema {}

variable {registry : Registry} {config : QuerySettings}

theorem runJob_eq {runs : List JobRun} {job : StageJob} {operator : Operator}
    (h : registry.get? job.tag = some operator) :
    runJob registry config runs job =
      { job, outcome := (workAfter config runs job operator).outcome } := by
  rw [runJob, h, Work.outcome, Work.deliveries, workAfter, List.map_map]
  rfl

theorem run_append (jobs : List StageJob) (job : StageJob) (sink : Nat) :
    run registry config ⟨jobs ++ [job], sink⟩ = run registry config ⟨jobs, sink⟩ ++
      [runJob registry config (run registry config ⟨jobs, sink⟩) job] := by
  rw [run, List.foldl_append]
  rfl

/-- When one job runs after the other, each has its work, on what the jobs before it have left. -/
theorem exists_works (config : QuerySettings) (jobs : List StageJob) (sink : Nat)
    (ho : ∀ job ∈ jobs, ∃ operator, registry.get? job.tag = some operator) :
    ∃ works : List Work, works.map (·.job) = jobs ∧
      run registry config ⟨jobs, sink⟩ = works.map Work.jobRun ∧
      ∀ (i : Nat) (work : Work), works[i]? = some work →
        registry.get? work.job.tag = some work.operator ∧
          work = workAfter config ((works.take i).map Work.jobRun) work.job work.operator := by
  induction jobs using List.reverseRecOn with
  | nil => exact ⟨[], rfl, rfl, by simp⟩
  | append_singleton jobs job ih =>
    rw [List.forall_mem_append, List.forall_mem_singleton] at ho
    obtain ⟨hbefore, operator, hoperator⟩ := ho
    obtain ⟨works, rfl, hrun, hworks⟩ := ih hbefore
    let work := workAfter config (works.map Work.jobRun) job operator
    refine ⟨works ++ [work], ?_, ?_, ?_⟩
    · rw [List.map_append]
      rfl
    · rw [run_append, runJob_eq hoperator, List.map_append, hrun]
      rfl
    · intro i v hi
      rcases Nat.lt_or_ge i works.length with hlt | hge
      · rw [List.getElem?_append_left hlt] at hi
        rw [List.take_append_of_le_length (Nat.le_of_lt hlt)]
        exact hworks i v hi
      · have hge' : i ≤ works.length := by
          have hlt := (List.getElem?_eq_some_iff.mp hi).1
          rw [List.length_append, List.length_singleton] at hlt
          omega
        rw [List.getElem?_append_right hge] at hi
        obtain rfl : work = v := by
          rw [Nat.sub_eq_zero_of_le hge'] at hi
          exact Option.some.inj hi
        rw [List.take_append_of_le_length (by omega), List.take_of_length_le hge]
        exact ⟨hoperator, rfl⟩

theorem map_fst_jobRun {work : Work}
    (h : work.outcome.streams.length = work.job.outputs.length) :
    work.jobRun.streams.map (·.1) = work.job.outputs :=
  List.map_fst_zip (Nat.le_of_eq h.symm)

/-- The streams that works have left are those of their jobs. -/
theorem map_fst_streams {works : List Work}
    (h : ∀ work ∈ works, work.outcome.streams.length = work.job.outputs.length) :
    ((works.map Work.jobRun).flatMap JobRun.streams).map (·.1) = outputsOf (works.map (·.job)) := by
  induction works with
  | nil => rfl
  | cons work works ih =>
    obtain ⟨hwork, hworks⟩ := List.forall_mem_cons.mp h
    rw [List.map_cons, List.flatMap_cons, List.map_append, map_fst_jobRun hwork, ih hworks]
    rfl

/-- Operators that only write leave one stream for each output. -/
theorem length_streams_workAfter {job : StageJob} {operator : Operator}
    (h : operator.OnlyWrites job) (runs : List JobRun) :
    (workAfter config runs job operator).outcome.streams.length = job.outputs.length := by
  rw [Outcome.streams, List.length_map]
  exact (h.length_outputs _ _).trans (List.length_map _)

theorem writer_blank (schema : Schema) : (config.writer schema {}).Blank schema :=
  ⟨{}, config.flushThreshold, rfl, rfl⟩

/-- What a prefix of a run has made, it has made for good. -/
theorem streamAt_prefix {before runs : List JobRun} (hb : before <+: runs)
    (hn : ((runs.flatMap JobRun.streams).map fun pair => (pair.1.name, pair.1.channel)).Nodup) :
    ∀ pair ∈ before.flatMap JobRun.streams, streamAt before pair.1 = pair.2 := by
  obtain ⟨after, rfl⟩ := hb
  rw [List.flatMap_append, List.map_append] at hn
  exact fun pair hpair => streamAt_eq hn.of_append_left hpair

section Works

variable {works : List Work}
  (hn : (((works.map Work.jobRun).flatMap JobRun.streams).map
    fun pair => (pair.1.name, pair.1.channel)).Nodup)
  (hlength : ∀ work ∈ works, work.outcome.streams.length = work.job.outputs.length)

include hn hlength

/-- Later work sees on an output what is there in the end. -/
theorem streamAt_take {i j : Nat} (hj : j < i) {source : Work} (hget : works[j]? = some source)
    {l : Location} (hl : l ∈ source.job.outputs) :
    streamAt ((works.take i).map Work.jobRun) l = streamAt (works.map Work.jobRun) l := by
  have hsource := List.mem_of_getElem? hget
  have hearly : source ∈ works.take i := by
    refine List.mem_of_getElem? (i := j) ?_
    rw [List.getElem?_take_of_lt hj, hget]
  have hbefore : (works.take i).map Work.jobRun <+: works.map Work.jobRun := by
    rw [List.map_take]
    exact List.take_prefix i _
  rw [← map_fst_jobRun (hlength source hsource)] at hl
  obtain ⟨pair, hpair, rfl⟩ := List.mem_map.mp hl
  have hthen := streamAt_prefix hbefore hn pair
    (List.mem_flatMap.mpr ⟨source.jobRun, List.mem_map_of_mem hearly, hpair⟩)
  have hnow := streamAt_eq hn
    (List.mem_flatMap.mpr ⟨source.jobRun, List.mem_map_of_mem hsource, hpair⟩)
  rw [hthen, hnow]

/-- In the end there is on the outputs of a job what its work has put there. -/
theorem map_streamAt {work : Work} (hw : work ∈ works) :
    work.job.outputs.map (streamAt (works.map Work.jobRun)) = work.outcome.streams := by
  have hwork := hlength work hw
  have hout : ∀ pair ∈ work.jobRun.streams,
      streamAt (works.map Work.jobRun) pair.1 = pair.2 := fun pair hpair =>
    streamAt_eq hn (List.mem_flatMap.mpr ⟨work.jobRun, List.mem_map_of_mem hw, hpair⟩)
  calc work.job.outputs.map (streamAt (works.map Work.jobRun))
    _ = (work.jobRun.streams.map (·.1)).map (streamAt (works.map Work.jobRun)) := by
      rw [map_fst_jobRun hwork]
    _ = work.jobRun.streams.map fun pair => streamAt (works.map Work.jobRun) pair.1 :=
      List.map_map
    _ = work.jobRun.streams.map (·.2) := List.map_congr_left hout
    _ = work.outcome.streams := List.map_snd_zip (Nat.le_of_eq hwork)

end Works

/-- A graph whose jobs run one after the other runs, and nothing disturbs it: every reader gets to
see everything. -/
theorem run_runs (config : QuerySettings) {graph : StageGraph} {rest : List Location}
    (hv : Wiring [] graph.jobs rest) (hn : (graph.jobs.map (·.location.name)).Nodup)
    (ho : ∀ job ∈ graph.jobs, ∃ operator, registry.get? job.tag = some operator ∧
      operator.OnlyWrites job) :
    ∃ works, graph.Runs registry works (streamAt (graph.run registry config)) ∧
      graph.run registry config = works.map Work.jobRun ∧
      ∀ work ∈ works, work.Undisturbed config (streamAt (graph.run registry config)) := by
  obtain ⟨works, hjobs, hrun, hworks⟩ := exists_works config graph.jobs graph.sink
    fun job hjob => (ho job hjob).imp fun _ h => h.1
  have hrun : graph.run registry config = works.map Work.jobRun := hrun
  have hlength : ∀ work ∈ works, work.outcome.streams.length = work.job.outputs.length := by
    intro work hw
    obtain ⟨i, hi⟩ := List.mem_iff_getElem?.mp hw
    obtain ⟨hget, heq⟩ := hworks i work hi
    obtain ⟨operator, hget', hwrites⟩ := ho work.job (hjobs ▸ List.mem_map_of_mem hw)
    obtain rfl := Option.some.inj (hget.symm.trans hget')
    rw [heq]
    exact length_streams_workAfter hwrites _
  have hnodup := nodup_keys hv.valid hn
  rw [← hjobs, ← map_fst_streams hlength, List.map_map] at hnodup
  have hundisturbed : ∀ work ∈ works,
      work.Undisturbed config (streamAt (works.map Work.jobRun)) := by
    intro work hw
    obtain ⟨i, hi⟩ := List.mem_iff_getElem?.mp hw
    obtain ⟨-, heq⟩ := hworks i work hi
    have hjob : graph.jobs[i]? = some work.job := by
      rw [← hjobs, List.getElem?_map, hi]
      rfl
    constructor
    · conv_lhs => rw [heq]
      refine List.map_congr_left fun l hl => ?_
      obtain ⟨j, hj, source, hsource, hout⟩ := hv.source_before hjob hl
      rw [← hjobs, List.getElem?_map] at hsource
      obtain ⟨v, hget, rfl⟩ := Option.map_eq_some_iff.mp hsource
      rw [streamAt_take hnodup hlength hj hget hout]
    · rw [heq]
      rfl
  rw [hrun]
  refine ⟨works, ⟨hjobs, ?_, ?_, ?_, ?_⟩, rfl, hundisturbed⟩
  · intro work hw
    obtain ⟨i, hi⟩ := List.mem_iff_getElem?.mp hw
    exact (hworks i work hi).1
  · intro work hw
    rw [(hundisturbed work hw).readers_eq]
    refine List.forall₂_map_right_iff.mpr (List.forall₂_same.mpr fun input _ => ?_)
    exact ⟨⟨rfl, rfl⟩, List.prefix_rfl⟩
  · intro work hw
    rw [(hundisturbed work hw).writers_eq]
    exact ⟨List.length_map _, List.forall_mem_map.mpr fun _ _ => writer_blank _⟩
  · exact fun work hw => map_streamAt hnodup hlength hw

/-- The graph of a plan runs with the sample operators. -/
theorem ofPlan_runs (config : QuerySettings) {plan : PlanNode} {p : Nat}
    {scheduler scheduler' : Scheduler} {graph : StageGraph}
    (h : StageGraph.ofPlan plan p scheduler = (.ok graph, scheduler'))
    (hn : (graph.jobs.map (·.location.name)).Nodup)
    (hc : ∀ job ∈ graph.jobs, Registry.withSamples.contains job.tag) :
    ∃ works, graph.Runs .withSamples works (streamAt (graph.run .withSamples config)) ∧
      (∀ work ∈ works, work.Undisturbed config (streamAt (graph.run .withSamples config))) ∧
      ∀ work ∈ works, work.operator.Faithful work.job := by
  obtain ⟨_, hwiring, -, -⟩ := ofPlan_wiring h
  have hops : ∀ job ∈ graph.jobs, ∃ operator, Registry.withSamples.get? job.tag = some operator ∧
      operator.Faithful job := by
    intro job hjob
    obtain ⟨operator, hget⟩ := Option.isSome_iff_exists.mp (hc job hjob)
    exact ⟨operator, hget, Registry.withSamples_faithful (Registry.get?_mem hget)
      (hwiring.valid job hjob)⟩
  obtain ⟨works, hruns, -, hundisturbed⟩ := run_runs config hwiring hn
    fun job hjob => (hops job hjob).imp fun _ ⟨hget, hfaithful⟩ => ⟨hget, hfaithful.onlyWrites⟩
  refine ⟨works, hruns, hundisturbed, fun work hw => ?_⟩
  obtain ⟨operator, hget, hfaithful⟩ := hops work.job (hruns.jobs ▸ List.mem_map_of_mem hw)
  obtain rfl := Option.some.inj ((hruns.operator work hw).symm.trans hget)
  exact hfaithful

end StageGraph

end StagedQuery

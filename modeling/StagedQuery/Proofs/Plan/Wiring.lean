import Mathlib.Data.List.Nodup
import Mathlib.Data.List.Perm.Basic
import Mathlib.Logic.Relation
import StagedQuery.Proofs.Job.StageJob
import StagedQuery.Proofs.Plan.Lowering

/-!
# Every stream has one reader

An output accepts its first reader only, and a job does not finish while one of its outputs has
none; so a graph runs to its end only if every stream in it is read exactly once. `Wiring` says
so of a list of jobs: there is a pool of streams that nobody reads yet, every job takes its inputs
out of the pool and puts its outputs in. The jobs of a node take the streams of its inputs and
leave its own (`NodeJobs.wiring`), those of a tree take nothing and leave the streams of the root
(`Lowered.wiring`). What follows for a whole graph is `StageGraph.ofPlan_wellWired`.
-/

namespace StagedQuery

open scoped List

/-- The jobs pass their checks, and take from `pool` and leave to `rest` every stream that they
do not make or read themselves. -/
inductive Wiring : List Location → List StageJob → List Location → Prop where
  /-- What is left in the pool is left over; the order in the pool does not count. -/
  | done {pool rest : List Location} (h : pool ~ rest) : Wiring pool [] rest
  /-- A job takes its inputs out of the pool and puts its outputs in. -/
  | step {pool others rest : List Location} {job : StageJob} {jobs : List StageJob}
    (hv : job.validate = .ok ()) (hp : pool ~ job.inputs ++ others)
    (hr : Wiring (job.outputs ++ others) jobs rest) : Wiring pool (job :: jobs) rest

namespace Wiring

variable {pool pool' rest rest' : List Location} {jobs jobs' : List StageJob}

/-! ### Putting wirings together -/

theorem of_perm (h : Wiring pool jobs rest) (hp : pool' ~ pool) : Wiring pool' jobs rest := by
  cases h with
  | done h => exact .done (hp.trans h)
  | step hv ht hr => exact .step hv (hp.trans ht) hr

theorem append (h : Wiring pool jobs rest) (h' : Wiring rest jobs' rest') :
    Wiring pool (jobs ++ jobs') rest' := by
  induction h with
  | done hp => exact h'.of_perm hp
  | step hv hp _ ih => exact .step hv hp (ih h')

/-- Streams that are left alone. -/
theorem frame (h : Wiring pool jobs rest) (others : List Location) :
    Wiring (pool ++ others) jobs (rest ++ others) := by
  induction h with
  | done hp => exact .done (hp.append_right others)
  | step hv hp _ ih =>
    refine .step hv ((hp.append_right others).trans (.of_eq (List.append_assoc ..))) ?_
    rwa [← List.append_assoc]

theorem frame_left (h : Wiring pool jobs rest) (others : List Location) :
    Wiring (others ++ pool) jobs (others ++ rest) := by
  have hcomm (as bs : List Location) : as ++ bs ~ bs ++ as := List.perm_append_comm
  have happ := (h.frame others).append (.done (hcomm rest others))
  rw [List.append_nil] at happ
  exact happ.of_perm (hcomm others pool)

theorem single {kind : JobKind} {inputs : List Location} {n : Nat} {schema : Schema}
    {payload : Bytes} {job : StageJob} (h : job.Does kind inputs n schema payload) :
    Wiring inputs [job] job.outputs := by
  have hpool : inputs ~ job.inputs ++ [] := by rw [h.inputs_eq, List.append_nil]
  exact .step h.valid hpool (.done (.of_eq (List.append_nil _)))

/-- Jobs that do not read from each other. -/
theorem layer {α : Type} {kind : α → JobKind} {inputs : α → List Location} {n : Nat}
    {schema : Schema} {payload : Bytes} {as : List α}
    (h : List.Forall₂ (fun a => StageJob.Does (kind a) (inputs a) n schema payload) as jobs) :
    Wiring (as.flatMap inputs) jobs (outputsOf jobs) := by
  induction h with
  | nil => exact .done (.refl _)
  | @cons a job as jobs hj _ ih =>
    refine .step hj.valid ?_ (ih.frame_left job.outputs)
    rw [hj.inputs_eq, List.flatMap_cons]

/-! ### Reading a wiring -/

theorem valid (h : Wiring pool jobs rest) : ∀ job ∈ jobs, job.validate = .ok () := by
  induction h with
  | done => simp
  | step hv _ _ ih => exact List.forall_mem_cons.mpr ⟨hv, ih⟩

/-- No stream is lost, and none is read twice. -/
theorem balanced (h : Wiring pool jobs rest) :
    pool ++ outputsOf jobs ~ inputsOf jobs ++ rest := by
  induction h with
  | done hp => simpa using hp
  | @step pool others rest job jobs hv hp hr ih =>
    calc pool ++ outputsOf (job :: jobs)
      _ ~ job.inputs ++ others ++ outputsOf (job :: jobs) := hp.append_right _
      _ = job.inputs ++ (others ++ job.outputs ++ outputsOf jobs) := by simp
      _ ~ job.inputs ++ (job.outputs ++ others ++ outputsOf jobs) :=
        (List.perm_append_comm.append_right _).append_left _
      _ ~ job.inputs ++ (inputsOf jobs ++ rest) := ih.append_left _
      _ = inputsOf (job :: jobs) ++ rest := by simp

/-- A job reads from the pool and from the jobs before it. -/
theorem input_before (h : Wiring pool jobs rest) {i : Nat} {job : StageJob}
    (hi : jobs[i]? = some job) {input : Location} (hin : input ∈ job.inputs) :
    input ∈ pool ++ outputsOf (jobs.take i) := by
  induction h generalizing i with
  | done => simp at hi
  | @step pool others rest first jobs hv hp hr ih =>
    cases i with
    | zero =>
      obtain rfl : first = job := by simpa using hi
      simpa using hp.mem_iff.mpr (List.mem_append_left others hin)
    | succ i =>
      have hmem := ih (by simpa using hi)
      simp only [List.mem_append, hp.mem_iff, List.take_succ_cons, outputsOf_cons] at hmem ⊢
      tauto

end Wiring

/-! ### The jobs of a node -/

theorem StageJob.Does.length_outputs {kind : JobKind} {inputs : List Location} {n : Nat}
    {schema : Schema} {payload : Bytes} {job : StageJob}
    (h : job.Does kind inputs n schema payload) : job.outputs.length = n := by
  rw [h.outputs_eq, List.length_map, List.length_range]

theorem length_outputs_of_layer {α : Type} {kind : α → JobKind} {inputs : α → List Location}
    {n : Nat} {schema : Schema} {payload : Bytes} {as : List α} {jobs : List StageJob}
    (h : List.Forall₂ (fun a => StageJob.Does (kind a) (inputs a) n schema payload) as jobs) :
    ∀ job ∈ jobs, job.outputs.length = n := by
  intro job hjob
  obtain ⟨a, -, hdoes⟩ := exists_of_forall₂ h hjob
  exact hdoes.length_outputs

theorem perm_zip {α : Type} {as bs : List α} (h : as.length = bs.length) :
    ((as.zip bs).flatMap fun pair => [pair.1, pair.2]) ~ as ++ bs := by
  have hsplit := (List.flatMap_append_perm (as.zip bs) (fun pair => [pair.1])
    (fun pair => [pair.2])).symm
  rwa [← List.map_eq_flatMap, ← List.map_eq_flatMap, List.map_fst_zip (Nat.le_of_eq h),
    List.map_snd_zip (Nat.le_of_eq h.symm)] at hsplit

theorem flatMap_getElem? {α : Type} (as : List α) :
    ((List.range as.length).flatMap fun i => as[i]?.toList) = as := by
  induction as with
  | nil => rfl
  | cons a as ih => simpa [List.range_succ_eq_map, List.flatMap_map] using ih

/-- Entry `i` of every row, for every `i`: the same entries as row by row. -/
theorem perm_columns {α β : Type} {p : Nat} (row : α → List β) {as : List α}
    (h : ∀ a ∈ as, (row a).length = p) :
    ((List.range p).flatMap fun i => as.filterMap fun a => (row a)[i]?) ~ as.flatMap row := by
  induction as with
  | nil => simp
  | cons a as ih =>
    obtain ⟨ha, has⟩ := List.forall_mem_cons.mp h
    have hsplit (i : Nat) : ((a :: as).filterMap fun a => (row a)[i]?) =
        (row a)[i]?.toList ++ as.filterMap fun a => (row a)[i]? := by
      cases hi : (row a)[i]? <;> simp [hi]
    calc ((List.range p).flatMap fun i => (a :: as).filterMap fun a => (row a)[i]?)
      _ = (List.range p).flatMap fun i =>
            (row a)[i]?.toList ++ as.filterMap fun a => (row a)[i]? := by simp only [hsplit]
      _ ~ ((List.range p).flatMap fun i => (row a)[i]?.toList) ++
            (List.range p).flatMap fun i => as.filterMap fun a => (row a)[i]? :=
        (List.flatMap_append_perm _ _ _).symm
      _ = row a ++ (List.range p).flatMap fun i => as.filterMap fun a => (row a)[i]? := by
        rw [← ha, flatMap_getElem?]
      _ ~ row a ++ as.flatMap row := (ih has).append_left _
      _ = (a :: as).flatMap row := List.flatMap_cons.symm

theorem Rerouted.wiring {condition : Prop} {kind : JobKind} {n : Nat} {side : Side}
    {jobs : List StageJob} {streams : List Location}
    (h : Rerouted condition kind n side jobs streams) : Wiring side.streams jobs streams := by
  cases h with
  | through _ hj => exact .single hj
  | past _ => exact .done (.refl _)

/-- The jobs of a node read the streams of its inputs, and leave its own. -/
theorem NodeJobs.wiring {node : PlanNode} {p : Nat} {sides : List Side} {jobs : List StageJob}
    {streams : List Location} (h : NodeJobs node p sides jobs streams) :
    Wiring (sides.flatMap (·.streams)) jobs streams := by
  cases h with
  | scan hk hs hj =>
    refine (Wiring.layer hj).of_perm ?_
    simp
  | each hk hj => simpa using Wiring.layer hj
  | whole hk hj => simpa using Wiring.single hj
  | distinct hk hg hj => simpa using hg.wiring.append (.single hj)
  | phases hk hj hl => simpa using (Wiring.layer hj).append (.single hl)
  | @join left right spreading jobs streams copier hk hs hc hj =>
    have hcopied : Wiring (streams ++ right.streams) [copier] (streams ++ copier.outputs) :=
      (Wiring.single hc).frame_left streams
    have hpairs : Wiring (streams ++ copier.outputs) jobs (outputsOf jobs) :=
      (Wiring.layer hj).of_perm (perm_zip hc.length_outputs.symm).symm
    have hspread := hs.wiring.frame right.streams
    simpa using hspread.append (hcopied.append hpairs)
  | @hashJoin leftKeys rightKeys left right lefts rights jobs hk hl hr hj =>
    have hlefts := (Wiring.layer hl).frame right.streams
    have hrights := (Wiring.layer hr).frame_left (outputsOf lefts)
    have hlength : ∀ job ∈ lefts ++ rights, job.outputs.length = p :=
      List.forall_mem_append.mpr ⟨length_outputs_of_layer hl, length_outputs_of_layer hr⟩
    have hinstances : Wiring (outputsOf (lefts ++ rights)) jobs (outputsOf jobs) :=
      (Wiring.layer hj).of_perm (perm_columns _ hlength).symm
    simp only [List.flatMap_singleton', outputsOf_append] at hlefts hrights hinstances
    simpa using hlefts.append (hrights.append hinstances)
  | pairwise hk hn hj =>
    refine (Wiring.layer hj).of_perm ?_
    simpa using (perm_zip hn).symm
  | merged hk hn hj => simpa using Wiring.single hj

/-! ### The jobs of a tree -/

mutual

theorem Lowered.wiring {p : Nat} {node : PlanNode} {jobs : List StageJob}
    {streams : List Location} : Lowered p node jobs streams → Wiring [] jobs streams
  | .node hi hj => hi.wiring.append hj.wiring

theorem LoweredInputs.wiring {p : Nat} {nodes : List PlanNode} {jobs : List StageJob}
    {sides : List Side} :
    LoweredInputs p nodes jobs sides → Wiring [] jobs (sides.flatMap (·.streams))
  | .nil => .done (.refl _)
  | @LoweredInputs.cons _ _ _ _ _ streams _ hf hr => by
    have hrest := hr.wiring.frame_left streams
    rw [List.append_nil] at hrest
    exact hf.wiring.append hrest

end

/-! ### Whole graphs -/

namespace StageGraph

/-- Job `j` reads an output of job `i`. -/
def Feeds (graph : StageGraph) (i j : Nat) : Prop :=
  ∃ source reader, graph.jobs[i]? = some source ∧ graph.jobs[j]? = some reader ∧
    ∃ output ∈ source.outputs, output ∈ reader.inputs

/-- What a graph owes its executors. -/
structure WellWired (graph : StageGraph) : Prop where
  /-- Every job passes its checks. -/
  valid : ∀ job ∈ graph.jobs, job.validate = .ok ()
  /-- A job reads only outputs of jobs before it. -/
  input_before : ∀ (i : Nat) (job : StageJob), graph.jobs[i]? = some job → ∀ input ∈ job.inputs,
    ∃ j < i, ∃ source : StageJob, graph.jobs[j]? = some source ∧ input ∈ source.outputs
  /-- An output of a job other than the sink is read by one job, once. -/
  read_once : ∀ (i : Nat) (job : StageJob), graph.jobs[i]? = some job → i ≠ graph.sink →
    ∀ output ∈ job.outputs, ∃ (j : Nat) (reader : StageJob), graph.jobs[j]? = some reader ∧
      reader.inputs.count output = 1 ∧ ∀ (k : Nat) (other : StageJob),
        graph.jobs[k]? = some other → output ∈ other.inputs → k = j
  /-- The sink is the last job. -/
  sink_last : graph.sink + 1 = graph.jobs.length
  /-- The sink has one output, which nobody in the graph reads. -/
  sink_output : ∃ (sink : StageJob) (output : Location), graph.jobs[graph.sink]? = some sink ∧
    sink.outputs = [output] ∧ ∀ job ∈ graph.jobs, output ∉ job.inputs
  /-- From every job, the outputs lead to the sink. -/
  reaches_sink : ∀ i < graph.jobs.length, Relation.ReflTransGen graph.Feeds i graph.sink

end StageGraph

theorem index_unique {α β : Type} {f : α → List β} {as : List α} (hn : (as.flatMap f).Nodup)
    {i j : Nat} {a b : α} (hi : as[i]? = some a) (hj : as[j]? = some b) {x : β} (ha : x ∈ f a)
    (hb : x ∈ f b) : i = j := by
  have hdisjoint := List.pairwise_iff_getElem.mp (List.nodup_flatMap.mp hn).2
  obtain ⟨hilt, rfl⟩ := List.getElem?_eq_some_iff.mp hi
  obtain ⟨hjlt, rfl⟩ := List.getElem?_eq_some_iff.mp hj
  rcases Nat.lt_trichotomy i j with hlt | heq | hgt
  · exact absurd hb (hdisjoint i j hilt hjlt hlt ha)
  · exact heq
  · exact absurd ha (hdisjoint j i hjlt hilt hgt hb)

section Graph

variable {jobs : List StageJob} {rest : List Location}

theorem Wiring.source_before (h : Wiring [] jobs rest) {i : Nat} {job : StageJob}
    (hi : jobs[i]? = some job) {input : Location} (hin : input ∈ job.inputs) :
    ∃ j < i, ∃ source : StageJob, jobs[j]? = some source ∧ input ∈ source.outputs := by
  have hmem := h.input_before hi hin
  rw [List.nil_append] at hmem
  obtain ⟨source, hsource, hout⟩ := List.mem_flatMap.mp hmem
  obtain ⟨j, hj, rfl⟩ := List.mem_take_iff_getElem.mp hsource
  exact ⟨j, by omega, jobs[j], List.getElem?_eq_getElem _, hout⟩

theorem Wiring.exists_reader (h : Wiring [] jobs rest) {i : Nat} {job : StageJob}
    (hi : jobs[i]? = some job) {output : Location} (hout : output ∈ job.outputs)
    (hrest : output ∉ rest) :
    ∃ (j : Nat) (reader : StageJob), jobs[j]? = some reader ∧ output ∈ reader.inputs := by
  have hmade : output ∈ outputsOf jobs :=
    List.mem_flatMap.mpr ⟨job, List.mem_of_getElem? hi, hout⟩
  have hmem : output ∈ inputsOf jobs ++ rest := h.balanced.mem_iff.mp hmade
  obtain ⟨reader, hreader, hin⟩ :=
    List.mem_flatMap.mp ((List.mem_append.mp hmem).resolve_right hrest)
  obtain ⟨j, hj⟩ := List.mem_iff_getElem?.mp hreader
  exact ⟨j, reader, hj, hin⟩

/-- Following outputs only goes forward, so it ends, and only the last job has outputs that
nobody reads. -/
theorem reaches_last {graph : StageGraph} (h : Wiring [] graph.jobs rest)
    (hn : (outputsOf graph.jobs).Nodup) (hs : ∀ i job, graph.jobs[i]? = some job →
      i ≠ graph.sink → ∀ output ∈ job.outputs, output ∉ rest) (i : Nat)
    (hi : i < graph.jobs.length) : Relation.ReflTransGen graph.Feeds i graph.sink := by
  induction hd : graph.jobs.length - i using Nat.strongRecOn generalizing i with
  | ind d ih =>
  by_cases heq : i = graph.sink
  · rw [heq]
  obtain ⟨output, hout⟩ := List.exists_mem_of_ne_nil _
    (StageJob.outputs_ne_nil (h.valid graph.jobs[i] (List.getElem_mem hi)))
  have hget : graph.jobs[i]? = some graph.jobs[i] := List.getElem?_eq_getElem hi
  obtain ⟨j, reader, hj, hin⟩ := h.exists_reader hget hout (hs i _ hget heq output hout)
  obtain ⟨k, hk, source, hsource, hout'⟩ := h.source_before hj hin
  obtain rfl : i = k := index_unique hn hget hsource hout hout'
  have hjlt : j < graph.jobs.length := (List.getElem?_eq_some_iff.mp hj).1
  exact .head ⟨_, _, hget, hj, output, hout, hin⟩ (ih _ (by omega) j hjlt rfl)

end Graph

/-- Every stream in the graph of a plan has exactly one reader, provided that the executors have
names of their own. -/
theorem StageGraph.ofPlan_wellWired {plan : PlanNode} {p : Nat} {scheduler scheduler' : Scheduler}
    {graph : StageGraph} (h : StageGraph.ofPlan plan p scheduler = (.ok graph, scheduler'))
    (hn : (graph.jobs.map (·.location.name)).Nodup) : graph.WellWired := by
  obtain ⟨jobs, streams, sink, hlowered, hsink, hjobs, hindex⟩ := ofPlan_lowered h
  have hwiring : Wiring [] graph.jobs sink.outputs := by
    rw [hjobs]
    exact hlowered.wiring.append (.single hsink)
  have hnodup : (outputsOf graph.jobs).Nodup := StageJob.nodup_flatMap_outputs hwiring.valid hn
  have hpart : (inputsOf graph.jobs ++ sink.outputs).Nodup := hwiring.balanced.nodup_iff.mp hnodup
  have hget : graph.jobs[graph.sink]? = some sink := by simp [hjobs, hindex]
  have hsinkOnly (i : Nat) (job : StageJob) (hi : graph.jobs[i]? = some job)
      (hne : i ≠ graph.sink) (output : Location) (hout : output ∈ job.outputs) :
      output ∉ sink.outputs :=
    fun hout' => hne (index_unique hnodup hi hget hout hout')
  exact {
    valid := hwiring.valid
    input_before := fun i job hi input hin => hwiring.source_before hi hin
    read_once := by
      intro i job hi hne output hout
      obtain ⟨j, reader, hj, hin⟩ :=
        hwiring.exists_reader hi hout (hsinkOnly i job hi hne output hout)
      have hinputs := List.nodup_flatMap.mp hpart.of_append_left
      refine ⟨j, reader, hj, ?_, ?_⟩
      · exact List.count_eq_one_of_mem (hinputs.1 reader (List.mem_of_getElem? hj)) hin
      · intro k other hk hin'
        exact index_unique hpart.of_append_left hk hj hin' hin
    sink_last := by simp [hjobs, hindex]
    sink_output := by
      refine ⟨sink, sink.location.withChannel 0, hget, hsink.outputs_eq, ?_⟩
      intro job hjob hin
      have hread : sink.location.withChannel 0 ∈ inputsOf graph.jobs :=
        List.mem_flatMap.mpr ⟨job, hjob, hin⟩
      refine List.disjoint_of_nodup_append hpart hread ?_
      simp [hsink.outputs_eq]
    reaches_sink := reaches_last hwiring hnodup hsinkOnly }

/-- A join of nested loops whose left side is one stream and whose right side is two, the result
of a hash join. -/
def PlanNode.unevenJoin : PlanNode :=
  let schema : Schema := { fields := [⟨"n", .int32, true⟩] }
  let scan (table : String) : PlanNode := ⟨.scan { table, files := ["0", "1"] }, [], schema, []⟩
  let limited : PlanNode := ⟨.limit 3, [scan "a"], schema, []⟩
  let matched : PlanNode := ⟨.hashJoin [0] [0], [scan "b", scan "c"], schema, []⟩
  ⟨.join, [limited, matched], schema, []⟩

/-- Two workers, whose executors are numbered. -/
def Scheduler.twoWorkers : Scheduler :=
  .create [⟨"v", "localhost", 7000, 7001⟩, ⟨"w", "localhost", 8000, 8001⟩]
    { suffix := toString, task := fun _ => default }

theorem StageGraph.ofPlan_wellWired_unevenJoin :
    ∃ graph scheduler, StageGraph.ofPlan .unevenJoin 2 .twoWorkers = (.ok graph, scheduler) ∧
      graph.jobs.length = 20 ∧ graph.WellWired := by
  have hgraph : (StageGraph.ofPlan .unevenJoin 2 .twoWorkers).1.toOption.any (fun graph =>
      graph.jobs.length = 20 ∧ (graph.jobs.map (·.location.name)).Nodup) = true := by
    decide +kernel
  rcases h : StageGraph.ofPlan .unevenJoin 2 .twoWorkers with ⟨_ | graph, scheduler⟩
  · rw [h] at hgraph
    cases hgraph
  · rw [h] at hgraph
    obtain ⟨hlength, hnames⟩ := of_decide_eq_true hgraph
    exact ⟨graph, scheduler, rfl, hlength, ofPlan_wellWired h hnames⟩

end StagedQuery

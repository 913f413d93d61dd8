import StagedQuery.Proofs.Plan.Acceptance

/-!
# Key columns and what the inputs bring

Jobs look columns up in the rows that they read, but are checked against the schema of the rows that
they emit. A shuffle has the schema of the side that it reads, and the second phase of a sort reads
the first one, which has the schema of the same node; a hash join reads shuffles. So the columns of
these exist where they are looked up. The first phase of a sort has the schema of its node and reads
the node below, which may have fewer columns: its columns exist there exactly if those of every
order-by in the plan do (`StageGraph.ofPlan_finds_columns`).
-/

namespace StagedQuery

/-- The columns that a job of this kind looks up in the rows of input `i`. -/
def JobKind.columnsOn (i : Nat) : JobKind → List Nat
  | shuffle columns => columns
  | orderByLocal keys | orderByGlobal keys => keys.map (·.column)
  | hashJoin left leftKeys rightKeys => if i < left then leftKeys else rightKeys
  | _ => []

/-- The columns that a job looks up in an input are value columns of whichever job that input is an
output of. -/
def StageGraph.Finds (graph : StageGraph) (job : StageJob) : Prop :=
  ∀ (i : Nat) (input : Location), job.inputs[i]? = some input → ∀ source ∈ graph.jobs,
    input ∈ source.outputs → ∀ column ∈ job.kind.columnsOn i, column < source.schema.fields.length

/-- The keys of an order-by are value columns of its input. -/
def PlanNode.SortsInput (node : PlanNode) : Prop :=
  ∀ keys, node.kind = .orderBy keys → ∀ input ∈ node.inputs, ∀ key ∈ keys,
    key.column < input.schema.fields.length

/-- The job is the first phase of a sort. -/
def StageJob.SortsFirst (job : StageJob) : Prop := ∃ keys, job.kind = .orderByLocal keys

/-! ### Where streams come from -/

/-- The stream is an output of a job that emits rows of the schema. -/
def Emitted (jobs : List StageJob) (schema : Schema) (stream : Location) : Prop :=
  ∃ job ∈ jobs, stream ∈ job.outputs ∧ job.schema = schema

theorem Emitted.mono {jobs jobs' : List StageJob} {schema : Schema} {stream : Location}
    (h : Emitted jobs schema stream) (hsub : jobs ⊆ jobs') : Emitted jobs' schema stream := by
  obtain ⟨job, hjob, hout, hschema⟩ := h
  exact ⟨job, hsub hjob, hout, hschema⟩

section Does

variable {α : Type} {n : Nat} {schema : Schema} {payload : Bytes}

theorem StageJob.Does.emitted {kind : JobKind} {inputs : List Location} {job : StageJob}
    (h : job.Does kind inputs n schema payload) :
    ∀ stream ∈ job.outputs, Emitted [job] schema stream :=
  fun _ hout => ⟨job, List.mem_singleton_self job, hout, h.schema_eq⟩

theorem emitted_of_layer {kind : α → JobKind} {inputs : α → List Location} {as : List α}
    {jobs : List StageJob}
    (h : List.Forall₂ (fun a => StageJob.Does (kind a) (inputs a) n schema payload) as jobs) :
    ∀ stream ∈ outputsOf jobs, Emitted jobs schema stream := by
  intro stream hstream
  obtain ⟨job, hjob, hout⟩ := List.mem_flatMap.mp hstream
  obtain ⟨a, -, hdoes⟩ := exists_of_forall₂ h hjob
  exact ⟨job, hjob, hout, hdoes.schema_eq⟩

end Does

/-- The streams of a node are outputs of its own jobs, and these emit rows of its schema. -/
theorem NodeJobs.emitted {node : PlanNode} {p : Nat} {sides : List Side} {jobs : List StageJob}
    {streams : List Location} (h : NodeJobs node p sides jobs streams) :
    ∀ stream ∈ streams, Emitted jobs node.schema stream := by
  cases h with
  | scan _ _ hj | each _ hj | pairwise _ _ hj => exact emitted_of_layer hj
  | whole _ hj | merged _ _ hj => exact hj.emitted
  | distinct _ _ hj | phases _ _ hj =>
    exact fun stream hstream => (hj.emitted stream hstream).mono (List.subset_append_right _ _)
  | join _ _ _ hj | hashJoin _ _ _ hj =>
    exact fun stream hstream => (emitted_of_layer hj stream hstream).mono fun job hjob =>
      List.mem_append_right _ (List.mem_append_right _ hjob)

theorem LoweredInputs.emitted {p : Nat} {nodes : List PlanNode} {jobs : List StageJob}
    {sides : List Side} (h : LoweredInputs p nodes jobs sides) :
    ∀ side ∈ sides, ∀ stream ∈ side.streams, Emitted jobs side.schema stream := by
  induction nodes generalizing jobs sides with
  | nil =>
    cases h
    simp
  | cons node nodes ih =>
    cases h with
    | cons hf hr =>
      refine List.forall_mem_cons.mpr ⟨fun stream hstream => ?_, fun side hside stream hstream => ?_⟩
      · cases hf with
        | node hi hj =>
          exact (hj.emitted stream hstream).mono fun job hjob =>
            List.mem_append_left _ (List.mem_append_right _ hjob)
      · exact (ih hr side hside stream hstream).mono (List.subset_append_right _ _)

/-! ### The columns of a job -/

/-- Each column that the job looks up exists in what one of these jobs emits to that input. -/
def StageJob.Covered (jobs : List StageJob) (job : StageJob) : Prop :=
  ∀ (i : Nat) (input : Location), job.inputs[i]? = some input → ∀ column ∈ job.kind.columnsOn i,
    ∃ schema, Emitted jobs schema input ∧ column < schema.fields.length

namespace StageJob.Covered

variable {jobs jobs' : List StageJob} {job : StageJob} {kind : JobKind} {inputs : List Location}
  {n : Nat} {schema : Schema} {payload : Bytes}

theorem mono (h : job.Covered jobs) (hsub : jobs ⊆ jobs') : job.Covered jobs' := by
  intro i input hi column hcolumn
  obtain ⟨schema, hemitted, hlt⟩ := h i input hi column hcolumn
  exact ⟨schema, hemitted.mono hsub, hlt⟩

/-- A job that looks nothing up. -/
theorem of_none (h : job.Does kind inputs n schema payload) (hk : ∀ i, kind.columnsOn i = []) :
    job.Covered jobs := by
  intro i input _ column hcolumn
  rw [h.kind_eq, hk i] at hcolumn
  cases hcolumn

theorem of_none_layer {α : Type} {kind : α → JobKind} {inputs : α → List Location} {as : List α}
    {layer : List StageJob} (hk : ∀ a ∈ as, ∀ i, (kind a).columnsOn i = [])
    (h : List.Forall₂ (fun a => StageJob.Does (kind a) (inputs a) n schema payload) as layer) :
    ∀ job ∈ layer, job.Covered jobs := by
  intro job hjob
  obtain ⟨a, ha, hdoes⟩ := exists_of_forall₂ h hjob
  exact of_none hdoes (hk a ha)

/-- A job that looks the same columns up in all its inputs, which all have them. -/
theorem of_emitted (h : job.Does kind inputs n schema payload) {columns : List Nat}
    {emitted : Schema} (hk : ∀ i, kind.columnsOn i = columns)
    (hinputs : ∀ input ∈ inputs, Emitted jobs emitted input)
    (hcolumns : ∀ column ∈ columns, column < emitted.fields.length) : job.Covered jobs := by
  intro i input hi column hcolumn
  rw [h.kind_eq, hk i] at hcolumn
  rw [h.inputs_eq] at hi
  exact ⟨emitted, hinputs input (List.mem_of_getElem? hi), hcolumns column hcolumn⟩

end StageJob.Covered

theorem StageJob.Does.keyed {kind : JobKind} {inputs : List Location} {n : Nat} {schema : Schema}
    {payload : Bytes} {job : StageJob} (h : job.Does kind inputs n schema payload) :
    kind.Keyed schema := by
  have hkeys := StageJob.checkKeys_eq_ok.mp (StageJob.validate_eq_ok.mp h.valid).2.2.2
  rwa [h.kind_eq, h.schema_eq] at hkeys

/-! ### The jobs of a node -/

theorem PlanKind.columnsOn_perStream? {k : PlanKind} {kind : JobKind}
    (h : k.perStream? = some kind) (i : Nat) : kind.columnsOn i = [] := by
  unfold perStream? at h
  split at h <;> cases h <;> rfl

theorem PlanKind.columnsOn_onWhole? {k : PlanKind} {kind : JobKind}
    (h : k.onWhole? = some kind) (i : Nat) : kind.columnsOn i = [] := by
  unfold onWhole? at h
  split at h <;> cases h <;> rfl

/-- The two phases of an order-by, or of a limit. -/
theorem PlanKind.phases?_eq_some {k : PlanKind} {first second : JobKind}
    (h : k.phases? = some (first, second)) :
    (∃ keys, k = .orderBy keys ∧ first = .orderByLocal keys ∧ second = .orderByGlobal keys) ∨
      ∃ count, first = .limit count ∧ second = .limit count := by
  unfold phases? at h
  split at h
  case h_1 keys =>
    cases h
    exact .inl ⟨keys, rfl, rfl, rfl⟩
  case h_2 count =>
    cases h
    exact .inr ⟨count, rfl, rfl⟩
  case h_3 => cases h

/-- Entry `i` of every row: the entry at position `k` comes from row `k`. -/
theorem getElem?_column {jobs : List StageJob} {p i k : Nat} {input : Location}
    (h : ∀ job ∈ jobs, job.outputs.length = p) (hi : i < p)
    (hk : (jobs.filterMap (·.outputs[i]?))[k]? = some input) :
    ∃ job, jobs[k]? = some job ∧ input ∈ job.outputs := by
  induction jobs generalizing k with
  | nil => simp at hk
  | cons job jobs ih =>
    obtain ⟨hlength, hrest⟩ := List.forall_mem_cons.mp h
    obtain ⟨output, hget⟩ : ∃ output, job.outputs[i]? = some output :=
      ⟨_, List.getElem?_eq_getElem (hlength ▸ hi)⟩
    simp only [List.filterMap_cons, hget] at hk
    cases k with
    | zero =>
      cases hk
      exact ⟨job, rfl, List.mem_of_getElem? hget⟩
    | succ k => exact ih hrest hk

section Shuffles

variable {p : Nat} {side left right : Side} {keys leftKeys rightKeys : List Nat}
  {shuffles lefts rights joins jobs : List StageJob}

/-- Shuffles of a side find their columns in its streams. -/
theorem covered_of_shuffles (hside : ∀ stream ∈ side.streams, Emitted jobs side.schema stream)
    (h : List.Forall₂ (fun stream => StageJob.Does (.shuffle keys) [stream] p side.schema [])
      side.streams shuffles) : ∀ job ∈ shuffles, job.Covered jobs := by
  intro job hjob
  obtain ⟨stream, hstream, hdoes⟩ := exists_of_forall₂ h hjob
  refine .of_emitted hdoes (fun _ => rfl) (List.forall_mem_singleton.mpr ?_) hdoes.keyed
  exact hside stream hstream

/-- Whoever reads an output of a shuffle finds the columns of the shuffle there. -/
theorem exists_of_shuffles (hsub : shuffles ⊆ jobs)
    (h : List.Forall₂ (fun stream => StageJob.Does (.shuffle keys) [stream] p side.schema [])
      side.streams shuffles) {source : StageJob} (hsource : source ∈ shuffles) {output : Location}
    (hout : output ∈ source.outputs) {column : Nat} (hcolumn : column ∈ keys) :
    ∃ schema, Emitted jobs schema output ∧ column < schema.fields.length := by
  obtain ⟨stream, -, hdoes⟩ := exists_of_forall₂ h hsource
  exact ⟨side.schema, ⟨source, hsub hsource, hout, hdoes.schema_eq⟩, hdoes.keyed column hcolumn⟩

/-- Hash joins of two rows of shuffles find the columns of either side in its shuffles. -/
theorem covered_of_hashJoins {schema : Schema} {payload : Bytes} (hleft : lefts ⊆ jobs)
    (hright : rights ⊆ jobs)
    (hl : List.Forall₂ (fun stream => StageJob.Does (.shuffle leftKeys) [stream] p left.schema [])
      left.streams lefts)
    (hr : List.Forall₂ (fun stream => StageJob.Does (.shuffle rightKeys) [stream] p right.schema [])
      right.streams rights)
    (hj : List.Forall₂ (fun i => StageJob.Does (.hashJoin lefts.length leftKeys rightKeys)
      ((lefts ++ rights).filterMap (·.outputs[i]?)) 1 schema payload) (List.range p) joins) :
    ∀ job ∈ joins, job.Covered jobs := by
  have hlength : ∀ job ∈ lefts ++ rights, job.outputs.length = p :=
    List.forall_mem_append.mpr ⟨length_outputs_of_layer hl, length_outputs_of_layer hr⟩
  intro job hjob k input hk column hcolumn
  obtain ⟨i, hi, hdoes⟩ := exists_of_forall₂ hj hjob
  rw [hdoes.inputs_eq] at hk
  rw [hdoes.kind_eq, JobKind.columnsOn] at hcolumn
  obtain ⟨source, hsource, hout⟩ := getElem?_column hlength (List.mem_range.mp hi) hk
  -- the inputs from the left shuffles stand first, and so do the left keys
  by_cases hbefore : k < lefts.length
  · rw [List.getElem?_append_left hbefore] at hsource
    rw [if_pos hbefore] at hcolumn
    exact exists_of_shuffles hleft hl (List.mem_of_getElem? hsource) hout hcolumn
  · rw [List.getElem?_append_right (Nat.le_of_not_lt hbefore)] at hsource
    rw [if_neg hbefore] at hcolumn
    exact exists_of_shuffles hright hr (List.mem_of_getElem? hsource) hout hcolumn

end Shuffles

/-- The jobs of a node find their columns in what is below them. The first phase of a sort does if
the keys of the node are columns of the side that it reads. -/
theorem NodeJobs.covered {node : PlanNode} {p : Nat} {sides : List Side} {below own : List StageJob}
    {streams : List Location} (h : NodeJobs node p sides own streams)
    (hsides : ∀ side ∈ sides, ∀ stream ∈ side.streams, Emitted below side.schema stream) :
    ∀ job ∈ own, (job.SortsFirst → ∀ keys, node.kind = .orderBy keys → ∀ side ∈ sides,
        ∀ key ∈ keys, key.column < side.schema.fields.length) →
      job.Covered (below ++ own) := by
  have plain {jobs : List StageJob} (hall : ∀ job ∈ jobs, job.Covered (below ++ own)) :
      ∀ job ∈ jobs, (job.SortsFirst → ∀ keys, node.kind = .orderBy keys → ∀ side ∈ sides,
        ∀ key ∈ keys, key.column < side.schema.fields.length) → job.Covered (below ++ own) :=
    fun job hjob _ => hall job hjob
  cases h with
  | scan hk hs hj =>
    refine plain (.of_none_layer (fun kind hkind i => ?_) hj)
    obtain ⟨name, partitions, files, rfl⟩ := (TableScan.slices_eq_ok hs).2 kind hkind
    rfl
  | each hk hj => exact plain (.of_none_layer (fun _ _ => PlanKind.columnsOn_perStream? hk) hj)
  | whole hk hj =>
    exact plain (List.forall_mem_singleton.mpr (.of_none hj (PlanKind.columnsOn_onWhole? hk)))
  | distinct hk hg hj =>
    refine plain (List.forall_mem_append.mpr
      ⟨?_, List.forall_mem_singleton.mpr (.of_none hj fun _ => rfl)⟩)
    cases hg with
    | through _ hgather => exact List.forall_mem_singleton.mpr (.of_none hgather fun _ => rfl)
    | past _ => simp
  | @phases first second side jobs last hk hj hl =>
    rcases PlanKind.phases?_eq_some hk with ⟨keys, hkeys, rfl, rfl⟩ | ⟨count, rfl, rfl⟩
    · refine List.forall_mem_append.mpr ⟨?_, List.forall_mem_singleton.mpr fun _ => ?_⟩
      · intro job hjob hsorts
        obtain ⟨stream, hstream, hdoes⟩ := exists_of_forall₂ hj hjob
        have hread := (hsides side (List.mem_singleton_self side) stream hstream).mono
          (List.subset_append_left below (jobs ++ [last]))
        refine .of_emitted hdoes (fun _ => rfl) (List.forall_mem_singleton.mpr hread)
          (List.forall_mem_map.mpr ?_)
        exact hsorts ⟨keys, hdoes.kind_eq⟩ keys hkeys side (List.mem_singleton_self side)
      · refine .of_emitted hl (fun _ => rfl) (fun input hinput => ?_)
          (List.forall_mem_map.mpr hl.keyed.2)
        exact (emitted_of_layer hj input hinput).mono fun job hjob =>
          List.mem_append_right _ (List.mem_append_left _ hjob)
    · exact plain (List.forall_mem_append.mpr ⟨.of_none_layer (fun _ _ _ => rfl) hj,
        List.forall_mem_singleton.mpr (.of_none hl fun _ => rfl)⟩)
  | join hk hs hc hj =>
    refine plain (List.forall_mem_append.mpr ⟨?_, List.forall_mem_append.mpr
      ⟨List.forall_mem_singleton.mpr (.of_none hc fun _ => rfl),
        .of_none_layer (fun _ _ _ => rfl) hj⟩⟩)
    cases hs with
    | through _ hspread => exact List.forall_mem_singleton.mpr (.of_none hspread fun _ => rfl)
    | past _ => simp
  | pairwise hk hn hj => exact plain (.of_none_layer (fun _ _ _ => rfl) hj)
  | merged hk hn hj => exact plain (List.forall_mem_singleton.mpr (.of_none hj fun _ => rfl))
  | @hashJoin leftKeys rightKeys left right lefts rights jobs hk hl hr hj =>
    have hread {side : Side} (hside : side ∈ [left, right]) (stream : Location)
        (hstream : stream ∈ side.streams) :
        Emitted (below ++ (lefts ++ (rights ++ jobs))) side.schema stream :=
      (hsides side hside stream hstream).mono (List.subset_append_left below _)
    refine plain (List.forall_mem_append.mpr ⟨?_, List.forall_mem_append.mpr ⟨?_, ?_⟩⟩)
    · exact covered_of_shuffles (hread (by simp)) hl
    · exact covered_of_shuffles (hread (by simp)) hr
    · refine covered_of_hashJoins (fun job hjob => ?_) (fun job hjob => ?_) hl hr hj
      · simp [hjob]
      · simp [hjob]

/-! ### The jobs of a tree -/

mutual

/-- All jobs of a tree find their columns, but for the first phases of sorts whose keys are not
columns of what they read. -/
theorem Lowered.covered {p : Nat} (hp : 0 < p) {plan : PlanNode} {jobs : List StageJob}
    {streams : List Location} : Lowered p plan jobs streams → ∀ job ∈ jobs,
      (job.SortsFirst → ∀ node : PlanNode, node.Occurs plan → node.SortsInput) → job.Covered jobs
  | @Lowered.node _ _ below own sides _ hi hj, job, hjob, hsorts => by
    rcases List.mem_append.mp hjob with hjob | hjob
    · refine (hi.covered hp job hjob fun hfirst input hinput node ho => ?_).mono
        (List.subset_append_left below own)
      exact hsorts hfirst node (.under hinput ho)
    · refine hj.covered hi.emitted job hjob fun hfirst keys hkeys side hside => ?_
      obtain ⟨input, hinput, hof⟩ := exists_of_forall₂ (hi.sides_of hp) hside
      rw [hof.schema_eq]
      exact hsorts hfirst plan .root keys hkeys input hinput

theorem LoweredInputs.covered {p : Nat} (hp : 0 < p) {plans : List PlanNode}
    {jobs : List StageJob} {sides : List Side} : LoweredInputs p plans jobs sides → ∀ job ∈ jobs,
      (job.SortsFirst → ∀ plan ∈ plans, ∀ node : PlanNode, node.Occurs plan → node.SortsInput) →
        job.Covered jobs
  | .nil, _, hjob, _ => nomatch hjob
  | @LoweredInputs.cons _ _ _ first rest _ _ hf hr, job, hjob, hsorts => by
    rcases List.mem_append.mp hjob with hjob | hjob
    · refine (hf.covered hp job hjob fun hfirst => ?_).mono (List.subset_append_left first rest)
      exact (List.forall_mem_cons.mp (hsorts hfirst)).1
    · refine (hr.covered hp job hjob fun hfirst => ?_).mono (List.subset_append_right first rest)
      exact (List.forall_mem_cons.mp (hsorts hfirst)).2

end

/-- The first phase of each order-by reads a stream of the node below. -/
theorem Lowered.exists_sort {p : Nat} (hp : 0 < p) {plan : PlanNode} {jobs : List StageJob}
    {streams : List Location} (h : Lowered p plan jobs streams) {node : PlanNode}
    (ho : node.Occurs plan) {keys : List SortKey} (hk : node.kind = .orderBy keys)
    {input : PlanNode} (hi : input ∈ node.inputs) :
    ∃ job ∈ jobs, job.kind = .orderByLocal keys ∧ ∃ stream, job.inputs = [stream] ∧
      Emitted jobs input.schema stream := by
  obtain ⟨below, own, sides, ownStreams, before, after, hinputs, hnode, rfl⟩ := h.jobs_of_occurs ho
  have hof := hinputs.sides_of hp
  have hemitted := hinputs.emitted
  cases hnode with
  | @phases first second side layer last hk' hj hl =>
    rcases PlanKind.phases?_eq_some hk' with ⟨keys', hkeys, rfl, rfl⟩ | ⟨count, rfl, rfl⟩
    · rw [hk] at hkeys
      cases hkeys
      obtain ⟨_, _, hside, hnil, hnodes⟩ := List.forall₂_cons_right_iff.mp hof
      obtain rfl := List.forall₂_nil_right_iff.mp hnil
      rw [hnodes] at hi
      obtain rfl := List.mem_singleton.mp hi
      obtain ⟨stream, streams, hstreams⟩ := List.exists_cons_of_ne_nil hside.streams_ne_nil
      rw [hstreams] at hj
      obtain ⟨job, rest, hdoes, -, rfl⟩ := List.forall₂_cons_left_iff.mp hj
      have hread := hemitted side (List.mem_singleton_self side) stream (by simp [hstreams])
      rw [hside.schema_eq] at hread
      refine ⟨job, by simp, hdoes.kind_eq, stream, hdoes.inputs_eq, hread.mono fun job hjob => ?_⟩
      simp [hjob]
    · rw [hk] at hk'
      cases hk'
  | scan hk' | each hk' | whole hk' | distinct hk' | join hk' | hashJoin hk' | pairwise hk'
  | merged hk' =>
    rw [hk] at hk'
    cases hk'

/-! ### Whole graphs -/

/-- In the graph of a plan, every job but the first phase of a sort finds the columns that it looks
up. The columns of the first phase exist in what it emits itself, and all jobs find their columns
exactly if the keys of each order-by in the plan are value columns of its input. -/
theorem StageGraph.ofPlan_finds_columns {plan : PlanNode} {p : Nat}
    {scheduler scheduler' : Scheduler} {graph : StageGraph}
    (h : StageGraph.ofPlan plan p scheduler = (.ok graph, scheduler'))
    (hn : (graph.jobs.map (·.location.name)).Nodup) :
    (∀ job ∈ graph.jobs, ¬ job.SortsFirst → graph.Finds job) ∧
      (∀ job ∈ graph.jobs, ∀ keys, job.kind = .orderByLocal keys →
        ∀ key ∈ keys, key.column < job.schema.fields.length) ∧
      ((∀ job ∈ graph.jobs, graph.Finds job) ↔
        ∀ node : PlanNode, node.Occurs plan → node.SortsInput) := by
  have hwired := ofPlan_wellWired h hn
  have hp := ofPlan_pos h
  obtain ⟨jobs, streams, sink, hlowered, hsink, hjobs, -⟩ := ofPlan_lowered h
  -- an output of a job is an output of no other job
  have hunique (source other : StageJob) (hs : source ∈ graph.jobs) (ho : other ∈ graph.jobs)
      (output : Location) (hout : output ∈ source.outputs) (hout' : output ∈ other.outputs) :
      source = other := by
    refine List.inj_on_of_nodup_map hn hs ho ?_
    rw [← StageJob.name_of_mem_outputs (hwired.valid source hs) hout,
      ← StageJob.name_of_mem_outputs (hwired.valid other ho) hout']
  have hfinds (job : StageJob) (hc : job.Covered graph.jobs) : graph.Finds job := by
    intro i input hi source hs hout column hcolumn
    obtain ⟨_, ⟨other, ho, hout', rfl⟩, hlt⟩ := hc i input hi column hcolumn
    rwa [hunique source other hs ho input hout hout']
  have hcovered (job : StageJob) (hjob : job ∈ graph.jobs) (hsorts : job.SortsFirst →
      ∀ node : PlanNode, node.Occurs plan → node.SortsInput) : graph.Finds job := by
    rw [hjobs] at hjob
    refine hfinds job ?_
    rw [hjobs]
    rcases List.mem_append.mp hjob with hjob | hjob
    · exact (hlowered.covered hp job hjob hsorts).mono (List.subset_append_left jobs [sink])
    · rw [List.mem_singleton.mp hjob]
      exact .of_none hsink fun _ => rfl
  refine ⟨fun job hjob hfirst => hcovered job hjob fun hsorts => absurd hsorts hfirst, ?_, ?_, ?_⟩
  · intro job hjob keys hk
    have hkeyed := StageJob.checkKeys_eq_ok.mp
      (StageJob.validate_eq_ok.mp (hwired.valid job hjob)).2.2.2
    rw [hk] at hkeyed
    exact hkeyed.2
  · intro hall node ho keys hk input hi key hkey
    obtain ⟨job, hjob, hkind, stream, hinputs, source, hs, hout, hschema⟩ :=
      hlowered.exists_sort hp ho hk hi
    have hsub : jobs ⊆ graph.jobs := hjobs ▸ List.subset_append_left jobs [sink]
    rw [← hschema]
    refine hall job (hsub hjob) 0 stream (by simp [hinputs]) source (hsub hs) hout _ ?_
    rw [hkind]
    exact List.mem_map_of_mem hkey
  · exact fun hsorts job hjob => hcovered job hjob fun _ => hsorts

/-- A table that is sorted by a column of a hash join. -/
def PlanNode.sortedJoin : PlanNode :=
  let schema : Schema := { fields := [⟨"n", .int64, true⟩] }
  let scan (table : String) : PlanNode := ⟨.scan { table, files := ["0"] }, [], schema, []⟩
  let matched : PlanNode := ⟨.hashJoin [0] [0], [scan "a", scan "b"], schema, []⟩
  ⟨.orderBy [⟨0, true⟩], [matched], schema, []⟩

theorem StageGraph.ofPlan_finds_columns_sortedJoin :
    ∃ graph scheduler, StageGraph.ofPlan .sortedJoin 2 .twoWorkers = (.ok graph, scheduler) ∧
      graph.jobs.length = 14 ∧ ∀ job ∈ graph.jobs, graph.Finds job := by
  have hgraph : (StageGraph.ofPlan .sortedJoin 2 .twoWorkers).1.toOption.any (fun graph =>
      graph.jobs.length = 14 ∧ (graph.jobs.map (·.location.name)).Nodup) = true := by
    decide +kernel
  have hscan (table : TableScan) (schema : Schema) : ∀ node : PlanNode,
      node.Occurs ⟨.scan table, [], schema, []⟩ → node.SortsInput :=
    PlanNode.forall_occurs_iff.mpr ⟨nofun, nofun⟩
  have hsorts : ∀ node : PlanNode, node.Occurs .sortedJoin → node.SortsInput := by
    refine PlanNode.forall_occurs_iff.mpr ⟨List.forall_mem_singleton.mpr
      (PlanNode.forall_occurs_iff.mpr ⟨?_, nofun⟩), ?_⟩
    · exact List.forall_mem_cons.mpr ⟨hscan _ _, List.forall_mem_singleton.mpr (hscan _ _)⟩
    · rintro keys ⟨⟩
      decide
  rcases h : StageGraph.ofPlan .sortedJoin 2 .twoWorkers with ⟨_ | graph, scheduler⟩
  · rw [h] at hgraph
    cases hgraph
  · rw [h] at hgraph
    obtain ⟨hlength, hnames⟩ := of_decide_eq_true hgraph
    exact ⟨graph, scheduler, rfl, hlength, (ofPlan_finds_columns h hnames).2.2.mpr hsorts⟩

/-- A table of one column that is sorted by a second one. -/
def PlanNode.sortedBeyond : PlanNode :=
  let scan : PlanNode :=
    ⟨.scan { table := "t", files := ["7"] }, [], { fields := [⟨"n", .int64, false⟩] }, []⟩
  ⟨.orderBy [⟨1, true⟩], [scan], { fields := [⟨"n", .int64, false⟩, ⟨"m", .int64, false⟩] }, []⟩

/-- Not every plan that is accepted has its key columns where they are looked up. -/
theorem StageGraph.not_finds_columns : ¬ ∀ (plan : PlanNode) (p : Nat)
    (scheduler scheduler' : Scheduler) (graph : StageGraph),
    StageGraph.ofPlan plan p scheduler = (.ok graph, scheduler') →
      (graph.jobs.map (·.location.name)).Nodup → ∀ job ∈ graph.jobs, graph.Finds job := by
  intro hall
  have hgraph : (StageGraph.ofPlan .sortedBeyond 1 .twoWorkers).1.toOption.any (fun graph =>
      (graph.jobs.map (·.location.name)).Nodup ∧ ∃ job ∈ graph.jobs, ∃ source ∈ graph.jobs,
        ∃ input ∈ source.outputs, job.inputs[0]? = some input ∧
          ∃ column ∈ job.kind.columnsOn 0, ¬ column < source.schema.fields.length) = true := by
    decide +kernel
  rcases h : StageGraph.ofPlan .sortedBeyond 1 .twoWorkers with ⟨_ | graph, scheduler⟩
  · rw [h] at hgraph
    cases hgraph
  · rw [h] at hgraph
    obtain ⟨hnames, job, hjob, source, hs, input, hout, hi, column, hcolumn, hge⟩ :=
      of_decide_eq_true hgraph
    exact hge (hall _ _ _ _ graph h hnames job hjob 0 input hi source hs hout column hcolumn)

end StagedQuery

import StagedQuery.Proofs.Dealing
import StagedQuery.Proofs.Plan.Lowering

/-!
# Scans cover their tables once

A scan of a table is as many jobs as the query is parallel, and what is to be read is dealt to them
in turn: the files of a table without partition columns, or the partitions that survive the filter
(`TableScan.SharedBy`). Positions are counted among the survivors. Nothing but a scan node
places scans, so the scans of a graph are those of the tables of its plan, table by table.
-/

namespace StagedQuery

/-! ### Sharing a table -/

namespace TableScan

/-- Whether the filter holds of a partition; without a filter all partitions survive. -/
def survives (table : TableScan) (partition : Partition) : Bool :=
  table.filter.all fun filter =>
    filter.keeps table.partitionColumns partition.values matches .ok true

/-- The partitions that have to be read, in the order of the table. -/
def survivors (table : TableScan) : List Partition := table.partitions.filter table.survives

/-- The jobs are the scan of the table, `p` of them. -/
inductive SharedBy (table : TableScan) (p : Nat) (jobs : List StageJob) : Prop
  /-- Without partition columns they share the files. -/
  | files {hands : List (List String)} (hc : table.partitionColumns = [])
    (hd : Dealt p table.files hands)
    (hk : jobs.map (·.kind) = hands.map fun files => .scan table.table [] files)
  /-- With partition columns they share the partitions that survive the filter. -/
  | partitions {hands : List (List Partition)} (hc : table.partitionColumns ≠ [])
    (hd : Dealt p table.survivors hands)
    (hk : jobs.map (·.kind) = hands.map fun partitions => .scan table.table partitions [])

variable {table : TableScan} {p : Nat} {jobs : List StageJob}

theorem keeps_eq_ok {partition : Partition} {kept : Bool}
    (h : table.keeps partition = .ok kept) : kept = table.survives partition := by
  rw [keeps] at h
  split at h
  · cases h
  rw [survives]
  cases hf : table.filter with
  | none =>
    rw [hf] at h
    cases h
    rfl
  | some filter =>
    rw [hf] at h
    have hkeeps : filter.keeps table.partitionColumns partition.values = .ok kept := h
    rw [Option.all_some, hkeeps]
    cases kept <;> rfl

theorem keptOf_eq_ok {partitions kept : List Partition} (h : table.keptOf partitions = .ok kept) :
    kept = partitions.filter table.survives := by
  induction partitions generalizing kept with
  | nil =>
    cases h
    rfl
  | cons partition partitions ih =>
    obtain ⟨first, hfirst, h⟩ := Result.bind_eq_ok.mp h
    obtain ⟨rest, hrest, h⟩ := Result.bind_eq_ok.mp h
    cases h
    rw [List.filter_cons, ← keeps_eq_ok hfirst, ih hrest]

theorem SharedBy.length_eq (h : table.SharedBy p jobs) : jobs.length = p := by
  cases h with
  | files _ hd hk | partitions _ hd hk =>
    rw [← List.length_map, hk, List.length_map, hd.length_eq]

theorem sharedBy_of_slices (hp : 0 < p) {kinds : List JobKind} (hs : table.slices p = .ok kinds)
    (hk : jobs.map (·.kind) = kinds) : table.SharedBy p jobs := by
  rw [slices] at hs
  split at hs
  case isTrue hc =>
    cases hs
    refine .files (List.isEmpty_iff.mp hc) (everyNth_dealt hp table.files) ?_
    rw [hk, List.map_map]
    rfl
  case isFalse hc =>
    obtain ⟨kept, hkept, hs⟩ := Result.bind_eq_ok.mp hs
    cases hs
    obtain rfl := keptOf_eq_ok hkept
    refine .partitions (mt List.isEmpty_iff.mpr hc) (everyNth_dealt hp table.survivors) ?_
    rw [hk, List.map_map]
    rfl

end TableScan

/-! ### The scans of a node -/

/-- The table that a node scans. -/
def PlanKind.table? : PlanKind → Option TableScan
  | .scan table => some table
  | _ => none

mutual

/-- The tables that a plan scans, from the left. -/
def PlanNode.tables : PlanNode → List TableScan
  | ⟨kind, inputs, _, _⟩ => tablesOf inputs ++ kind.table?.toList

/-- The tables that several plans scan. -/
def PlanNode.tablesOf : List PlanNode → List TableScan
  | [] => []
  | node :: nodes => tables node ++ tablesOf nodes

end

/-- The scans among some jobs. -/
def scansOf (jobs : List StageJob) : List StageJob := jobs.filter fun job => job.tag = .scan

@[simp] theorem scansOf_append (js ks : List StageJob) :
    scansOf (js ++ ks) = scansOf js ++ scansOf ks := List.filter_append ..

theorem scansOf_eq_nil {jobs : List StageJob} (h : ∀ job ∈ jobs, job.tag ≠ .scan) :
    scansOf jobs = [] := by
  rw [scansOf, List.filter_eq_nil_iff]
  simpa using h

theorem StageJob.Does.tag_eq {kind : JobKind} {inputs : List Location} {n : Nat} {schema : Schema}
    {payload : Bytes} {job : StageJob} (h : job.Does kind inputs n schema payload) :
    job.tag = kind.tag := by
  rw [StageJob.tag, h.kind_eq]

theorem scansOf_single {kind : JobKind} {inputs : List Location} {n : Nat} {schema : Schema}
    {payload : Bytes} {job : StageJob} (h : job.Does kind inputs n schema payload)
    (hk : kind.tag ≠ .scan) : scansOf [job] = [] :=
  scansOf_eq_nil (List.forall_mem_singleton.mpr (h.tag_eq ▸ hk))

theorem scansOf_layer {α : Type} {kind : α → JobKind} {inputs : α → List Location} {n : Nat}
    {schema : Schema} {payload : Bytes} {as : List α} {jobs : List StageJob}
    (h : List.Forall₂ (fun a => StageJob.Does (kind a) (inputs a) n schema payload) as jobs)
    (hk : ∀ a, (kind a).tag ≠ .scan) : scansOf jobs = [] := by
  refine scansOf_eq_nil fun job hjob => ?_
  obtain ⟨a, -, hdoes⟩ := exists_of_forall₂ h hjob
  exact hdoes.tag_eq ▸ hk a

theorem Rerouted.scansOf_eq {condition : Prop} {kind : JobKind} {n : Nat} {side : Side}
    {jobs : List StageJob} {streams : List Location}
    (h : Rerouted condition kind n side jobs streams) (hk : kind.tag ≠ .scan) :
    scansOf jobs = [] := by
  cases h with
  | through _ hj => exact scansOf_single hj hk
  | past _ => rfl

namespace PlanKind

theorem table?_of_perStream? {k : PlanKind} {kind : JobKind} (h : k.perStream? = some kind) :
    k.table? = none ∧ kind.tag ≠ .scan := by
  unfold perStream? at h
  split at h <;> cases h <;> exact ⟨rfl, nofun⟩

theorem table?_of_onWhole? {k : PlanKind} {kind : JobKind} (h : k.onWhole? = some kind) :
    k.table? = none ∧ kind.tag ≠ .scan := by
  unfold onWhole? at h
  split at h <;> cases h <;> exact ⟨rfl, nofun⟩

theorem table?_of_phases? {k : PlanKind} {first second : JobKind}
    (h : k.phases? = some (first, second)) :
    k.table? = none ∧ first.tag ≠ .scan ∧ second.tag ≠ .scan := by
  unfold phases? at h
  split at h <;> cases h <;> exact ⟨rfl, nofun, nofun⟩

end PlanKind

/-- The scans among the jobs are, table by table, those of the tables. -/
def ScannedBy (p : Nat) (tables : List TableScan) (jobs : List StageJob) : Prop :=
  ∃ groups, scansOf jobs = groups.flatten ∧
    List.Forall₂ (fun table group => group.length = p ∧ table.SharedBy p group) tables groups

theorem ScannedBy.append {p : Nat} {tables tables' : List TableScan} {jobs jobs' : List StageJob}
    (h : ScannedBy p tables jobs) (h' : ScannedBy p tables' jobs') :
    ScannedBy p (tables ++ tables') (jobs ++ jobs') := by
  obtain ⟨groups, hscans, hgroups⟩ := h
  obtain ⟨groups', hscans', hgroups'⟩ := h'
  refine ⟨groups ++ groups', ?_, List.rel_append hgroups hgroups'⟩
  rw [scansOf_append, hscans, hscans', List.flatten_append]

theorem scannedBy_nil {p : Nat} {jobs : List StageJob} (h : scansOf jobs = []) :
    ScannedBy p [] jobs := ⟨[], h, .nil⟩

variable {p : Nat}

theorem map_kind_of_layer {inputs : JobKind → List Location} {n : Nat} {schema : Schema}
    {payload : Bytes} {kinds : List JobKind} {jobs : List StageJob}
    (h : List.Forall₂ (fun kind => StageJob.Does kind (inputs kind) n schema payload) kinds jobs) :
    jobs.map (·.kind) = kinds := by
  induction h with
  | nil => rfl
  | cons hd _ ih => rw [List.map_cons, hd.kind_eq, ih]

/-- The jobs of a node that scans a table are the scan of this table. -/
theorem NodeJobs.sharedBy (hp : 0 < p) {node : PlanNode} {sides : List Side} {jobs : List StageJob}
    {streams : List Location} (h : NodeJobs node p sides jobs streams) {table : TableScan}
    (hk : node.kind = .scan table) :
    sides = [] ∧ table.SharedBy p jobs ∧ streams = outputsOf jobs := by
  obtain ⟨kinds, hsides, hslices, hjobs, hstreams⟩ := h.of_scan hk
  exact ⟨hsides, TableScan.sharedBy_of_slices hp hslices (map_kind_of_layer hjobs), hstreams⟩

/-- The jobs of a node are scans only if it scans a table. -/
theorem NodeJobs.scannedBy (hp : 0 < p) {node : PlanNode} {sides : List Side}
    {jobs : List StageJob} {streams : List Location} (h : NodeJobs node p sides jobs streams) :
    ScannedBy p node.kind.table?.toList jobs := by
  cases h with
  | @scan table kinds jobs hk hs hj =>
    have hshared := TableScan.sharedBy_of_slices hp hs (map_kind_of_layer hj)
    rw [hk]
    refine ⟨[jobs], ?_, .cons ⟨hshared.length_eq, hshared⟩ .nil⟩
    rw [List.flatten_singleton, scansOf, List.filter_eq_self]
    intro job hjob
    obtain ⟨kind, hkind, hdoes⟩ := exists_of_forall₂ hj hjob
    obtain ⟨name, partitions, files, rfl⟩ := (TableScan.slices_eq_ok hs).2 kind hkind
    exact decide_eq_true hdoes.tag_eq
  | each hk hj =>
    obtain ⟨htable, htag⟩ := PlanKind.table?_of_perStream? hk
    rw [htable]
    exact scannedBy_nil (scansOf_layer hj fun _ => htag)
  | whole hk hj =>
    obtain ⟨htable, htag⟩ := PlanKind.table?_of_onWhole? hk
    rw [htable]
    exact scannedBy_nil (scansOf_single hj htag)
  | distinct hk hg hj =>
    rw [hk]
    refine scannedBy_nil ?_
    rw [scansOf_append, hg.scansOf_eq nofun, scansOf_single hj nofun, List.append_nil]
  | phases hk hj hl =>
    obtain ⟨htable, hfirst, hsecond⟩ := PlanKind.table?_of_phases? hk
    rw [htable]
    refine scannedBy_nil ?_
    rw [scansOf_append, scansOf_layer hj fun _ => hfirst, scansOf_single hl hsecond,
      List.append_nil]
  | join hk hs hc hj =>
    rw [hk]
    refine scannedBy_nil ?_
    rw [scansOf_append, scansOf_append, hs.scansOf_eq nofun, scansOf_single hc nofun,
      scansOf_layer hj nofun, List.append_nil, List.append_nil]
  | hashJoin hk hl hr hj =>
    rw [hk]
    refine scannedBy_nil ?_
    rw [scansOf_append, scansOf_append, scansOf_layer hl nofun, scansOf_layer hr nofun,
      scansOf_layer hj nofun, List.append_nil, List.append_nil]
  | pairwise hk _ hj =>
    rw [hk]
    exact scannedBy_nil (scansOf_layer hj nofun)
  | merged hk _ hj =>
    rw [hk]
    exact scannedBy_nil (scansOf_single hj nofun)

mutual

theorem Lowered.scannedBy (hp : 0 < p) {node : PlanNode} {jobs : List StageJob}
    {streams : List Location} : Lowered p node jobs streams → ScannedBy p node.tables jobs
  | @Lowered.node _ ⟨_, _, _, _⟩ _ _ _ _ hi hj => by
    rw [PlanNode.tables]
    exact (hi.scannedBy hp).append (hj.scannedBy hp)

theorem LoweredInputs.scannedBy (hp : 0 < p) {nodes : List PlanNode} {jobs : List StageJob}
    {sides : List Side} :
    LoweredInputs p nodes jobs sides → ScannedBy p (PlanNode.tablesOf nodes) jobs
  | .nil => by
    rw [PlanNode.tablesOf]
    exact scannedBy_nil rfl
  | .cons hf hr => by
    rw [PlanNode.tablesOf]
    exact (hf.scannedBy hp).append (hr.scannedBy hp)

end

/-- The jobs that a node is lowered to are, if it scans a table, `p` scans that share this table;
and the scans of a graph are, table by table, those of the tables of its plan. -/
theorem PlanNode.scans_share_tables (p : Nat) :
    (∀ (node : PlanNode) table, node.kind = .scan table → 0 < p →
      ∀ b streams b', node.lower p b = (.ok streams, b') →
        ∃ jobs, b'.jobs = b.jobs ++ jobs ∧ jobs.length = p ∧ table.SharedBy p jobs ∧
          streams = outputsOf jobs) ∧
    ∀ (plan : PlanNode) scheduler graph scheduler',
      StageGraph.ofPlan plan p scheduler = (.ok graph, scheduler') →
        ScannedBy p plan.tables graph.jobs := by
  constructor
  · rintro ⟨kind, inputs, schema, payload⟩ table hk hp b streams b' h
    obtain ⟨jobs, hjobs, -, hlowered⟩ := lower_adds p _ b streams b' h
    cases hlowered with
    | node hi hj =>
      obtain ⟨rfl, hshared, rfl⟩ := hj.sharedBy hp hk
      cases hi
      exact ⟨_, hjobs, hshared.length_eq, hshared, rfl⟩
  · intro plan scheduler graph scheduler' h
    obtain ⟨jobs, streams, sink, hlowered, hsink, hjobs, -⟩ := StageGraph.ofPlan_lowered h
    have hall := (hlowered.scannedBy (StageGraph.ofPlan_pos h)).append
      (scannedBy_nil (scansOf_single hsink nofun))
    rwa [List.append_nil, ← hjobs] at hall

/-- Of three partitions two survive, and each of two scans has one of them. -/
theorem PlanNode.scans_share_tables_filtered :
    let table : TableScan :=
      { table := "t", partitionColumns := ["d"]
        partitions := [⟨[.int32 1], ["a"]⟩, ⟨[.int32 2], ["b"]⟩, ⟨[.int32 3], ["c"]⟩]
        filter := some ⟨[⟨"d", .gtEq, .int32 2⟩]⟩ }
    let plan : PlanNode := ⟨.scan table, [], { fields := [] }, []⟩
    let scheduler := Scheduler.create [⟨"w", "localhost", 7000, 7001⟩]
      { suffix := toString, task := fun _ => default }
    ∃ graph scheduler', StageGraph.ofPlan plan 2 scheduler = (.ok graph, scheduler') ∧
      (scansOf graph.jobs).map (·.kind) =
        [.scan "t" [⟨[.int32 2], ["b"]⟩] [], .scan "t" [⟨[.int32 3], ["c"]⟩] []] ∧
      ScannedBy 2 plan.tables graph.jobs := by
  intro table plan scheduler
  have hgraph : (StageGraph.ofPlan plan 2 scheduler).1.toOption.any (fun graph =>
      (scansOf graph.jobs).map (·.kind) =
        [.scan "t" [⟨[.int32 2], ["b"]⟩] [], .scan "t" [⟨[.int32 3], ["c"]⟩] []]) = true := by
    decide +kernel
  rcases h : StageGraph.ofPlan plan 2 scheduler with ⟨_ | graph, scheduler'⟩
  · rw [h] at hgraph
    cases hgraph
  · rw [h] at hgraph
    exact ⟨graph, scheduler', rfl, of_decide_eq_true hgraph,
      (scans_share_tables 2).2 plan scheduler graph scheduler' h⟩

end StagedQuery

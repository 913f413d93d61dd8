import StagedQuery.Proofs.Job.StageJob
import StagedQuery.Proofs.Plan.Wiring

/-!
# Which plans are accepted

A plan has a stage graph exactly if there are workers, the query is parallel at all, and every node
of the plan is well formed (`StageGraph.ofPlan_accepts_iff`). What a well-formed node is
(`PlanNode.WellFormed`) says nothing of jobs.

`Builder.Accepts` is for actions that succeed under a condition on the plan and under no other:
where they begin does not matter, as long as the scheduler has a worker to offer
(`Scheduler.Ready`), and that it still has afterwards. No job of a well-formed node is refused, and
no check is left out for a node that is not: each check is made by a job, so it matters here that a
node has streams at all (`Lowered.streams_ne_nil`).
-/

namespace StagedQuery

/-! ### Well-formed nodes -/

/-- The partitions can be read: each has a value for each partition column, and the filter can be
tried on them. -/
def TableScan.Readable (table : TableScan) : Prop :=
  table.partitionColumns ≠ [] → ∀ partition ∈ table.partitions,
    partition.values.length = table.partitionColumns.length ∧
      ∀ filter ∈ table.filter, ∃ kept,
        filter.keeps table.partitionColumns partition.values = .ok kept

/-- A node has the inputs that its kind asks for, and its parameters fit them. -/
def PlanNode.WellFormed (node : PlanNode) : Prop :=
  match node.kind with
  | .scan table => node.inputs = [] ∧ table.Readable
  | .orderBy keys => (∃ input, node.inputs = [input]) ∧ keys ≠ [] ∧
    ∀ key ∈ keys, key.column < node.schema.fields.length
  | .join | .union => ∃ left right, node.inputs = [left, right]
  | .hashJoin leftKeys rightKeys => ∃ left right, node.inputs = [left, right] ∧
    leftKeys ≠ [] ∧ leftKeys.length = rightKeys.length ∧
    (∀ column ∈ leftKeys, column < left.schema.fields.length) ∧
    ∀ column ∈ rightKeys, column < right.schema.fields.length
  | _ => ∃ input, node.inputs = [input]

/-! ### Schedulers that can place jobs -/

namespace Scheduler

/-- There is a worker to place the next job on. -/
structure Ready (s : Scheduler) : Prop where
  queue_ne_nil : s.queue ≠ []
  registered : ∀ load ∈ s.queue, load.2 < s.workers.length

theorem mem_enqueue {load l : Load} {queue : List Load} :
    l ∈ load.enqueue queue ↔ l = load ∨ l ∈ queue := by
  induction queue with
  | nil => simp [Load.enqueue]
  | cons first queue ih =>
    rw [Load.enqueue]
    split
    · exact List.mem_cons
    · rw [List.mem_cons, ih, List.mem_cons]
      tauto

theorem create_ready {workers : List WorkerInfo} {names : NameSupply} (h : workers ≠ []) :
    (create workers names).Ready where
  queue_ne_nil := by simpa [create] using h
  registered := by simp [create]

/-- There always is a worker for one more job. -/
theorem Ready.allocate {s : Scheduler} (h : s.Ready) :
    ∃ location s', Scheduler.allocate s = (.ok location, s') ∧ s'.Ready := by
  obtain ⟨⟨count, index⟩, queue, hqueue⟩ := List.exists_cons_of_ne_nil h.queue_ne_nil
  have hregistered := h.registered
  rw [hqueue] at hregistered
  obtain ⟨hindex, hrest⟩ := List.forall_mem_cons.mp hregistered
  rw [Scheduler.allocate]
  simp only [hqueue, List.getElem?_eq_getElem hindex]
  refine ⟨_, _, rfl, ?_, ?_⟩
  · exact List.ne_nil_of_mem (mem_enqueue.mpr (.inl rfl))
  · intro load hload
    rcases mem_enqueue.mp hload with rfl | hload
    · exact hindex
    · exact hrest load hload

end Scheduler

/-! ### Actions that succeed under a condition -/

/-- From every builder that can place jobs, the action succeeds exactly under the condition, and
leaves a builder that can place jobs. -/
def Builder.Accepts {α : Type} (x : Action Builder α) (condition : Prop) : Prop :=
  ∀ b : Builder, b.scheduler.Ready → ((∃ a b', x b = (.ok a, b')) ↔ condition) ∧
    ∀ a b', x b = (.ok a, b') → b'.scheduler.Ready

namespace Builder

variable {α β : Type} {P Q : Prop}

theorem Accepts.congr {x : Action Builder α} (h : Accepts x P) (hiff : P ↔ Q) : Accepts x Q :=
  propext hiff ▸ h

theorem Accepts.holds {x : Action Builder α} (h : Accepts x True) (hq : Q) : Accepts x Q :=
  h.congr (iff_of_true trivial hq)

theorem accepts_pure (a : α) : Accepts (pure a) True := by
  refine fun b hb => ⟨iff_of_true ⟨a, b, rfl⟩ trivial, ?_⟩
  rintro a' b' ⟨⟩
  exact hb

theorem accepts_fail (e : Error) : Accepts (.fail e : Action Builder α) False :=
  fun b _ => ⟨iff_of_false (by rintro ⟨a, b', ⟨⟩⟩) id, by rintro a b' ⟨⟩⟩

theorem accepts_ofExcept (x : Except Error α) : Accepts (.ofExcept x) (∃ a, x = .ok a) := by
  refine fun b hb => ⟨⟨?_, ?_⟩, ?_⟩
  · rintro ⟨a, b', h⟩
    exact ⟨a, (Action.ofExcept_eq_ok.mp h).1⟩
  · rintro ⟨a, rfl⟩
    exact ⟨a, b, rfl⟩
  · intro a b' h
    exact (Action.ofExcept_eq_ok.mp h).2 ▸ hb

/-- One action after another: what the second one is accepted under may rest on what the first one
has placed, but is the same whatever that was. -/
theorem Accepts.bind {x : Action Builder α} {f : α → Action Builder β}
    {post : List StageJob → α → Prop} (hx : Accepts x P) (ha : Adds x post)
    (hf : ∀ added a, post added a → Accepts (f a) Q) : Accepts (x >>= f) (P ∧ Q) := by
  intro b hb
  obtain ⟨hxok, hxready⟩ := hx b hb
  have hnext (a : α) (b' : Builder) (h : x b = (.ok a, b')) :
      ((∃ c b'', f a b' = (.ok c, b'')) ↔ Q) ∧ ∀ c b'', f a b' = (.ok c, b'') →
        b''.scheduler.Ready := by
    obtain ⟨added, -, -, hpost⟩ := ha b a b' h
    exact hf added a hpost b' (hxready a b' h)
  refine ⟨⟨?_, ?_⟩, ?_⟩
  · rintro ⟨c, b'', h⟩
    obtain ⟨a, b', hfirst, hsecond⟩ := Action.bind_eq_ok.mp h
    exact ⟨hxok.mp ⟨a, b', hfirst⟩, (hnext a b' hfirst).1.mp ⟨c, b'', hsecond⟩⟩
  · rintro ⟨hp, hq⟩
    obtain ⟨a, b', hfirst⟩ := hxok.mpr hp
    obtain ⟨c, b'', hsecond⟩ := (hnext a b' hfirst).1.mpr hq
    exact ⟨c, b'', (Action.bind_ok hfirst).trans hsecond⟩
  · intro c b'' h
    obtain ⟨a, b', hfirst, hsecond⟩ := Action.bind_eq_ok.mp h
    exact (hnext a b' hfirst).2 c b'' hsecond

theorem Accepts.map {x : Action Builder α} {post : List StageJob → α → Prop} (hx : Accepts x P)
    (ha : Adds x post) (f : α → β) : Accepts (do return f (← x)) P :=
  (hx.bind ha fun _ a _ => accepts_pure (f a)).congr (and_iff_left trivial)

/-- The entries of a list that all are accepted under one condition; if there are none, nothing is
asked for. -/
theorem accepts_collect {f : α → Action Builder (List β)} {as : List α}
    {post : α → List StageJob → List β → Prop} (ha : ∀ a, Adds (f a) (post a))
    (hf : ∀ a ∈ as, Accepts (f a) Q) : Accepts (Action.collect f as) (as ≠ [] → Q) := by
  have hadds (as : List α) : Adds (Action.collect f as) fun _ _ => True := by
    induction as with
    | nil => exact (adds_pure []).mono fun _ _ _ => trivial
    | cons a as ih =>
      exact ((ha a).bind fun bs => ih.map fun rest => bs ++ rest).mono fun _ _ _ => trivial
  induction as with
  | nil => exact (accepts_pure []).holds fun h => absurd rfl h
  | cons a as ih =>
    obtain ⟨hfirst, hrest⟩ := List.forall_mem_cons.mp hf
    refine (hfirst.bind (ha a) fun _ bs _ =>
      (ih hrest).map (hadds as) fun rest => bs ++ rest).congr ⟨?_, ?_⟩
    · exact fun h _ => h.1
    · exact fun h => ⟨h (List.cons_ne_nil a as), fun _ => h (List.cons_ne_nil a as)⟩

/-! ### Placing jobs -/

/-- A job is accepted if it has an output, the inputs that its kind can take, and keys that
exist. -/
theorem accepts_place (kind : JobKind) (inputs : List Location) (n : Nat) (schema : Schema)
    (payload : Bytes) : Accepts (place kind inputs n schema payload)
      (n ≠ 0 ∧ kind.Takes inputs.length ∧ kind.Keyed schema) := by
  intro b hb
  obtain ⟨location, s', hallocate, hready⟩ := hb.allocate
  let job : StageJob :=
    { taskId := b.scheduler.names.task b.scheduler.placed, location, kind, inputs, schema, payload
      outputs := (List.range n).map location.withChannel }
  have hvalid : job.validate = .ok () ↔
      n ≠ 0 ∧ kind.Takes inputs.length ∧ kind.Keyed schema := by
    have houtputs : job.checkOutputs 0 job.outputs = .ok () := by
      refine StageJob.checkOutputs_eq_ok.mpr ⟨List.forall_mem_map.mpr fun _ _ => rfl, ?_⟩
      simp [job, Location.withChannel, Function.comp_def, List.range_eq_range']
    rw [StageJob.validate_eq_ok, StageJob.checkInputs_eq_ok, StageJob.checkKeys_eq_ok,
      and_iff_right houtputs]
    simp [job]
  have hplace : place kind inputs n schema payload b =
      (Action.ofExcept job.validate >>= fun _ => .modify (fun b => { b with jobs := b.jobs ++ [job] })
        >>= fun _ => pure job) { b with scheduler := s' } := by
    rw [place, Action.bind_ok (Action.get_apply b), Action.bind_ok (Action.zoom_apply hallocate)]
  rw [hplace]
  cases hcheck : job.validate with
  | ok done =>
    refine ⟨iff_of_true ⟨job, _, rfl⟩ (hvalid.mp hcheck), ?_⟩
    rintro _ _ ⟨⟩
    exact hready
  | error e =>
    have hinvalid : job.validate ≠ .ok () := by
      rw [hcheck]
      rintro ⟨⟩
    refine ⟨iff_of_false ?_ (mt hvalid.mpr hinvalid), ?_⟩
    · rintro ⟨a, b', ⟨⟩⟩
    · rintro a b' ⟨⟩

theorem accepts_placeOne (node : PlanNode) (kind : JobKind) (inputs : List Location) :
    Accepts (placeOne node kind inputs) (kind.Takes inputs.length ∧ kind.Keyed node.schema) :=
  ((accepts_place kind inputs 1 node.schema node.payload).map (adds_place _ _ _ _ _) (·.outputs)).congr
    (and_iff_right Nat.one_ne_zero)

/-- A job with one output for each entry of a list that is not empty. -/
theorem accepts_layer (node : PlanNode) {kind : α → JobKind} {inputs : α → List Location}
    {as : List α} (hne : as ≠ [])
    (h : ∀ a ∈ as, (kind a).Takes (inputs a).length ∧ (kind a).Keyed node.schema ↔ Q) :
    Accepts (Action.collect (fun a => placeOne node (kind a) (inputs a)) as) Q :=
  (accepts_collect (fun a => adds_placeOne node (kind a) (inputs a)) fun a ha =>
    (accepts_placeOne node (kind a) (inputs a)).congr (h a ha)).congr (imp_iff_right hne)

end Builder

/-! ### Nodes have streams -/

theorem StageJob.Does.outputs_ne_nil {kind : JobKind} {inputs : List Location} {n : Nat}
    {schema : Schema} {payload : Bytes} {job : StageJob}
    (h : job.Does kind inputs n schema payload) : job.outputs ≠ [] := StageJob.outputs_ne_nil h.valid

theorem outputsOf_ne_nil_of_layer {α : Type} {kind : α → JobKind} {inputs : α → List Location}
    {n : Nat} {schema : Schema} {payload : Bytes} {as : List α} {jobs : List StageJob}
    (h : List.Forall₂ (fun a => StageJob.Does (kind a) (inputs a) n schema payload) as jobs)
    (hne : as ≠ []) : outputsOf jobs ≠ [] := by
  cases h with
  | nil => exact absurd rfl hne
  | cons hj _ => exact List.append_ne_nil_of_left_ne_nil hj.outputs_ne_nil _

theorem Rerouted.streams_ne_nil {condition : Prop} {kind : JobKind} {n : Nat} {side : Side}
    {jobs : List StageJob} {streams : List Location}
    (h : Rerouted condition kind n side jobs streams) (hs : side.streams ≠ []) : streams ≠ [] := by
  cases h with
  | through _ hj => exact hj.outputs_ne_nil
  | past _ => exact hs

theorem zip_ne_nil {α β : Type} {as : List α} {bs : List β} (h : as.length = bs.length)
    (ha : as ≠ []) : as.zip bs ≠ [] := by
  rw [← List.length_pos_iff] at ha ⊢
  rwa [List.length_zip, ← h, Nat.min_self]

theorem range_ne_nil {p : Nat} (hp : 0 < p) : List.range p ≠ [] :=
  mt List.range_eq_nil.mp (Nat.ne_of_gt hp)

theorem NodeJobs.streams_ne_nil {node : PlanNode} {p : Nat} {sides : List Side}
    {jobs : List StageJob} {streams : List Location} (h : NodeJobs node p sides jobs streams)
    (hp : 0 < p) (hsides : ∀ side ∈ sides, side.streams ≠ []) : streams ≠ [] := by
  cases h with
  | scan hk hs hj =>
    have hlength := (TableScan.slices_eq_ok hs).1
    exact outputsOf_ne_nil_of_layer hj (List.ne_nil_of_length_pos (hlength ▸ hp))
  | each hk hj => exact outputsOf_ne_nil_of_layer hj (hsides _ List.mem_cons_self)
  | whole hk hj => exact hj.outputs_ne_nil
  | distinct hk hg hj => exact hj.outputs_ne_nil
  | phases hk hj hl => exact hl.outputs_ne_nil
  | join hk hs hc hj =>
    have hstreams := hs.streams_ne_nil (hsides _ List.mem_cons_self)
    exact outputsOf_ne_nil_of_layer hj (zip_ne_nil hc.length_outputs.symm hstreams)
  | hashJoin hk hl hr hj => exact outputsOf_ne_nil_of_layer hj (range_ne_nil hp)
  | pairwise hk hn hj =>
    exact outputsOf_ne_nil_of_layer hj (zip_ne_nil hn (hsides _ List.mem_cons_self))
  | merged hk hn hj => exact hj.outputs_ne_nil

/-- A side that comes from an input: it has the schema of the input, and at least one stream. -/
structure Side.Of (input : PlanNode) (side : Side) : Prop where
  schema_eq : side.schema = input.schema
  streams_ne_nil : side.streams ≠ []

mutual

theorem Lowered.streams_ne_nil {p : Nat} (hp : 0 < p) {node : PlanNode} {jobs : List StageJob}
    {streams : List Location} : Lowered p node jobs streams → streams ≠ []
  | .node hi hj => hj.streams_ne_nil hp fun _ hside => by
    obtain ⟨input, -, hof⟩ := exists_of_forall₂ (hi.sides_of hp) hside
    exact hof.streams_ne_nil

theorem LoweredInputs.sides_of {p : Nat} (hp : 0 < p) {nodes : List PlanNode}
    {jobs : List StageJob} {sides : List Side} :
    LoweredInputs p nodes jobs sides → List.Forall₂ Side.Of nodes sides
  | .nil => .nil
  | .cons hf hr => .cons ⟨rfl, hf.streams_ne_nil hp⟩ (hr.sides_of hp)

end

/-! ### What a node is accepted under -/

namespace PlanNode

open Builder

variable {node : PlanNode} {p : Nat} {Q : Prop} {side left right : Side}

theorem accepts_each {kind : JobKind} (hs : side.streams ≠ [])
    (ht : ∀ n, kind.Takes n ↔ n ≠ 0) (hk : kind.Keyed node.schema ↔ Q) :
    Accepts (placeEach node kind side.streams) Q :=
  accepts_layer node hs fun _ _ => (and_iff_right ((ht 1).mpr Nat.one_ne_zero)).trans hk

/-- One job for several streams. -/
theorem accepts_whole {kind : JobKind} {streams : List Location} (hs : streams ≠ [])
    (ht : ∀ n, kind.Takes n ↔ n ≠ 0) (hk : kind.Keyed node.schema ↔ Q) :
    Accepts (placeOne node kind streams) Q := by
  have htakes := (ht _).mpr (mt List.length_eq_zero_iff.mp hs)
  exact (accepts_placeOne node kind streams).congr ((and_iff_right htakes).trans hk)

theorem accepts_phases {first second : JobKind} (hs : side.streams ≠ [])
    (ht : ∀ n, first.Takes n ↔ n ≠ 0) (hk : first.Keyed node.schema ↔ Q)
    (ht' : ∀ n, second.Takes n ↔ n ≠ 0) (hk' : second.Keyed node.schema ↔ Q) :
    Accepts (do placeOne node second (← placeEach node first side.streams)) Q := by
  have hadds := adds_layer node (fun _ => first) (fun stream => [stream]) side.streams
  refine ((accepts_each hs ht hk).bind hadds fun added streams h => ?_).congr and_self_iff
  obtain ⟨hj, rfl⟩ := h
  exact accepts_whole (outputsOf_ne_nil_of_layer hj hs) ht' hk'

/-- Streams that may go through one more job first. -/
theorem accepts_reroute (condition : Prop) [Decidable condition] {kind : JobKind} {n : Nat}
    (hs : side.streams ≠ []) (hn : condition → n ≠ 0)
    (hk : ∀ n ≠ 0, kind.Takes n ∧ kind.Keyed side.schema) :
    Accepts (if condition then
        do return (← place kind side.streams n side.schema []).outputs
      else pure side.streams) True := by
  split
  case isTrue h =>
    have hcount : side.streams.length ≠ 0 := mt List.length_eq_zero_iff.mp hs
    exact ((accepts_place kind side.streams n side.schema []).map (adds_place _ _ _ _ _) _).congr
      (iff_of_true ⟨hn h, hk _ hcount⟩ trivial)
  case isFalse h => exact accepts_pure side.streams

theorem accepts_distinct (hs : side.streams ≠ []) :
    Accepts (do placeOne node .select (← gather side)) True := by
  have hgather : Accepts (gather side) True := accepts_reroute (1 < side.streams.length) hs
    (fun _ => Nat.one_ne_zero) fun n hn => ⟨hn, trivial⟩
  refine (hgather.bind (adds_gather side) fun added streams h => ?_).congr and_self_iff
  exact accepts_whole (h.streams_ne_nil hs) (fun _ => .rfl) .rfl

theorem keptOf_isOk (table : TableScan) (partitions : List Partition) :
    (∃ kept, table.keptOf partitions = .ok kept) ↔
      ∀ partition ∈ partitions, ∃ kept, table.keeps partition = .ok kept := by
  induction partitions with
  | nil => simp [TableScan.keptOf]
  | cons partition partitions ih =>
    rw [List.forall_mem_cons, ← ih, TableScan.keptOf]
    cases table.keeps partition with
    | error e => simp
    | ok kept => cases table.keptOf partitions <;> simp

theorem keeps_isOk (table : TableScan) (partition : Partition) :
    (∃ kept, table.keeps partition = .ok kept) ↔
      partition.values.length = table.partitionColumns.length ∧ ∀ filter ∈ table.filter,
        ∃ kept, filter.keeps table.partitionColumns partition.values = .ok kept := by
  rw [TableScan.keeps]
  by_cases h : partition.values.length = table.partitionColumns.length
  · cases hf : table.filter <;> simp [h]
  · simp [h]

theorem slices_isOk (table : TableScan) (p : Nat) :
    (∃ kinds, table.slices p = .ok kinds) ↔ table.Readable := by
  rw [TableScan.Readable, TableScan.slices]
  by_cases h : table.partitionColumns = []
  · simp [h]
  · have hkept : (∃ kept, table.kept = .ok kept) ↔ _ := keptOf_isOk table table.partitions
    simp only [keeps_isOk] at hkept
    simp only [List.isEmpty_iff, h, if_false, ne_eq, not_false_eq_true, forall_const]
    rw [← hkept]
    cases table.kept <;> simp

theorem accepts_placeScans (table : TableScan) :
    Accepts (node.placeScans p table) table.Readable := by
  refine ((accepts_ofExcept (table.slices p)).bind (adds_ofExcept _) (Q := True)
    fun added kinds h => ?_).congr ((and_iff_left trivial).trans (slices_isOk table p))
  refine (accepts_collect (Q := True) (fun kind => adds_placeOne node kind [])
    fun kind hkind => ?_).congr (iff_of_true (fun _ => trivial) trivial)
  obtain ⟨name, partitions, files, rfl⟩ := (TableScan.slices_eq_ok h.2).2 kind hkind
  exact (accepts_placeOne node _ []).congr (iff_of_true ⟨rfl, trivial⟩ trivial)

theorem accepts_placeJoin (hp : 0 < p) (hl : left.streams ≠ []) (hr : right.streams ≠ []) :
    Accepts (node.placeJoin p left right) True := by
  have hspread : Accepts (spread p left) True :=
    accepts_reroute (left.streams.length = 1 ∧ 1 < p) hl (fun _ => Nat.ne_of_gt hp)
      fun n hn => ⟨hn, trivial⟩
  refine (hspread.bind (adds_spread p left) (Q := True) fun _ streams hs => ?_).congr and_self_iff
  have hstreams := hs.streams_ne_nil hl
  have hcopies := (accepts_place .duplicate right.streams streams.length right.schema []).congr
    (iff_of_true ⟨mt List.length_eq_zero_iff.mp hstreams, mt List.length_eq_zero_iff.mp hr, trivial⟩
      trivial)
  refine (hcopies.bind (adds_place _ _ _ _ _) (Q := True) fun _ copier hcopier => ?_).congr and_self_iff
  have hpairs := zip_ne_nil hcopier.2.length_outputs.symm hstreams
  exact accepts_layer node hpairs fun pair _ =>
    iff_of_true ⟨⟨Nat.one_pos, Nat.one_lt_two⟩, trivial⟩ trivial

theorem accepts_shuffle (hp : 0 < p) (hs : side.streams ≠ []) (keys : List Nat) :
    Accepts (shuffle p side keys) (∀ column ∈ keys, column < side.schema.fields.length) := by
  refine (accepts_collect (Q := ∀ column ∈ keys, column < side.schema.fields.length)
    (fun stream => (adds_place (.shuffle keys) [stream] p side.schema []).map fun job => [job])
    fun stream _ => ?_).congr (imp_iff_right hs)
  refine ((accepts_place (.shuffle keys) [stream] p side.schema []).map (adds_place _ _ _ _ _) _).congr ?_
  exact (and_iff_right (Nat.ne_of_gt hp)).trans (and_iff_right Nat.one_ne_zero)

/-- Every job has entry `i` of its outputs. -/
theorem length_column {jobs : List StageJob} {p i : Nat}
    (h : ∀ job ∈ jobs, job.outputs.length = p) (hi : i < p) :
    (jobs.filterMap (·.outputs[i]?)).length = jobs.length := by
  rw [List.filterMap_length_eq_length]
  intro job hjob
  simp [h job hjob, hi]

theorem accepts_placeHashJoin (hp : 0 < p) (hl : left.streams ≠ []) (hr : right.streams ≠ [])
    (leftKeys rightKeys : List Nat) :
    Accepts (node.placeHashJoin p leftKeys rightKeys left right)
      ((∀ column ∈ leftKeys, column < left.schema.fields.length) ∧
        (∀ column ∈ rightKeys, column < right.schema.fields.length) ∧
        leftKeys ≠ [] ∧ leftKeys.length = rightKeys.length) := by
  refine (accepts_shuffle hp hl leftKeys).bind (adds_shuffle p left leftKeys) ?_
  rintro _ lefts ⟨hlefts, rfl⟩
  refine (accepts_shuffle hp hr rightKeys).bind (adds_shuffle p right rightKeys) ?_
  rintro _ rights ⟨hrights, rfl⟩
  refine accepts_layer node (range_ne_nil hp) fun i hi => ?_
  have hlength : ∀ job ∈ lefts ++ rights, job.outputs.length = p :=
    List.forall_mem_append.mpr ⟨length_outputs_of_layer hlefts, length_outputs_of_layer hrights⟩
  have hinputs : ((lefts ++ rights).filterMap (·.outputs[i]?)).length =
      lefts.length + rights.length := by
    rw [length_column hlength (List.mem_range.mp hi), List.length_append]
  have hleft : 0 < lefts.length := hlefts.length_eq ▸ List.length_pos_iff.mpr hl
  have hright : 0 < rights.length := hrights.length_eq ▸ List.length_pos_iff.mpr hr
  rw [hinputs]
  exact (and_iff_left trivial).trans (and_iff_right ⟨hleft, by omega⟩)

theorem accepts_placeUnion (hl : left.streams ≠ []) : Accepts (node.placeUnion left right) True := by
  rw [placeUnion]
  split
  case isTrue hn =>
    exact accepts_layer node (zip_ne_nil hn hl) fun _ _ => iff_of_true ⟨Nat.succ_ne_zero 1, trivial⟩ trivial
  case isFalse hn =>
    exact accepts_whole (List.append_ne_nil_of_left_ne_nil hl _) (fun _ => .rfl) .rfl

theorem WellFormed.length_inputs (h : node.WellFormed) :
    node.inputs.length = node.kind.arity := by
  obtain ⟨kind, inputs, schema, payload⟩ := node
  cases kind with
  | scan table => exact List.length_eq_zero_iff.mpr h.1
  | orderBy keys =>
    obtain ⟨⟨input, hinput⟩, -⟩ := h
    exact congrArg List.length hinput
  | join | union | hashJoin =>
    obtain ⟨left, right, hinputs⟩ := h
    first | exact congrArg List.length hinputs | exact congrArg List.length hinputs.1
  | _ =>
    obtain ⟨input, hinput⟩ := h
    exact congrArg List.length hinput

/-- The jobs of a node with the inputs that its kind asks for are accepted if it is well formed. -/
theorem accepts_placeJobs {sides : List Side} (hp : 0 < p)
    (harity : node.inputs.length = node.kind.arity)
    (hsides : List.Forall₂ Side.Of node.inputs sides) :
    Accepts (node.placeJobs p sides) node.WellFormed := by
  obtain ⟨kind, inputs, schema, payload⟩ := node
  have one (h : inputs.length = 1) :
      ∃ input side, inputs = [input] ∧ sides = [side] ∧ Side.Of input side := by
    obtain ⟨input, rfl⟩ := List.length_eq_one_iff.mp h
    rcases hsides with _ | ⟨hside, _ | _⟩
    exact ⟨input, _, rfl, rfl, hside⟩
  have two (h : inputs.length = 2) : ∃ first second left right, inputs = [first, second] ∧
      sides = [left, right] ∧ Side.Of first left ∧ Side.Of second right := by
    obtain ⟨first, second, rfl⟩ := List.length_eq_two.mp h
    rcases hsides with _ | ⟨hleft, _ | ⟨hright, _ | _⟩⟩
    exact ⟨first, second, _, _, rfl, rfl, hleft, hright⟩
  cases kind with
  | scan table =>
    obtain rfl : inputs = [] := List.length_eq_zero_iff.mp harity
    cases hsides
    exact (accepts_placeScans table).congr (and_iff_right rfl).symm
  | orderBy keys =>
    obtain ⟨input, side, rfl, rfl, hside⟩ := one harity
    exact .congr (accepts_phases hside.streams_ne_nil (fun _ => .rfl) .rfl (fun _ => .rfl) .rfl)
      (and_iff_right ⟨input, rfl⟩).symm
  | limit count =>
    obtain ⟨input, side, rfl, rfl, hside⟩ := one harity
    exact .holds (accepts_phases hside.streams_ne_nil (fun _ => .rfl) .rfl (fun _ => .rfl) .rfl)
      ⟨input, rfl⟩
  | select distinct =>
    obtain ⟨input, side, rfl, rfl, hside⟩ := one harity
    cases distinct with
    | true => exact .holds (accepts_distinct hside.streams_ne_nil) ⟨input, rfl⟩
    | false =>
      exact .holds (accepts_each hside.streams_ne_nil (fun _ => .rfl) .rfl) ⟨input, rfl⟩
  | filter | groupBy | aggregateLocal | distinctLocal =>
    obtain ⟨input, side, rfl, rfl, hside⟩ := one harity
    exact .holds (accepts_each hside.streams_ne_nil (fun _ => .rfl) .rfl) ⟨input, rfl⟩
  | aggregateGlobal | distinctGlobal | «show» | insert =>
    obtain ⟨input, side, rfl, rfl, hside⟩ := one harity
    exact .holds (accepts_whole hside.streams_ne_nil (fun _ => .rfl) .rfl) ⟨input, rfl⟩
  | join =>
    obtain ⟨first, second, left, right, rfl, rfl, hleft, hright⟩ := two harity
    exact (accepts_placeJoin hp hleft.streams_ne_nil hright.streams_ne_nil).holds
      ⟨first, second, rfl⟩
  | union =>
    obtain ⟨first, second, left, right, rfl, rfl, hleft, hright⟩ := two harity
    exact (accepts_placeUnion hleft.streams_ne_nil).holds ⟨first, second, rfl⟩
  | hashJoin leftKeys rightKeys =>
    obtain ⟨first, second, left, right, rfl, rfl, hleft, hright⟩ := two harity
    refine (accepts_placeHashJoin hp hleft.streams_ne_nil hright.streams_ne_nil leftKeys
      rightKeys).congr ?_
    rw [hleft.schema_eq, hright.schema_eq]
    constructor
    · rintro ⟨hleftKeys, hrightKeys, hsome, hpaired⟩
      exact ⟨first, second, rfl, hsome, hpaired, hleftKeys, hrightKeys⟩
    · rintro ⟨_, _, ⟨⟩, hsome, hpaired, hleftKeys, hrightKeys⟩
      exact ⟨hleftKeys, hrightKeys, hsome, hpaired⟩

/-! ### What a tree is accepted under -/

theorem occurs_iff {node plan : PlanNode} :
    node.Occurs plan ↔ node = plan ∨ ∃ input ∈ plan.inputs, node.Occurs input := by
  constructor
  · rintro (_ | ⟨hi, ho⟩)
    · exact .inl rfl
    · exact .inr ⟨_, hi, ho⟩
  · rintro (rfl | ⟨input, hi, ho⟩)
    · exact .root
    · exact .under hi ho

theorem forall_occurs_iff {P : PlanNode → Prop} {plan : PlanNode} :
    (∀ node : PlanNode, node.Occurs plan → P node) ↔
      (∀ input ∈ plan.inputs, ∀ node : PlanNode, node.Occurs input → P node) ∧ P plan := by
  constructor
  · exact fun h => ⟨fun input hi node ho => h node (.under hi ho), h plan .root⟩
  · rintro ⟨hinputs, hplan⟩ node ho
    rcases occurs_iff.mp ho with rfl | ⟨input, hi, ho⟩
    · exact hplan
    · exact hinputs input hi node ho

mutual

/-- A tree is accepted if all its nodes are well formed. -/
theorem accepts_lower (hp : 0 < p) : (plan : PlanNode) →
    Accepts (lower p plan) (∀ node : PlanNode, node.Occurs plan → node.WellFormed)
  | ⟨kind, inputs, schema, payload⟩ => by
    rw [lower]
    split
    case isTrue h =>
      refine (accepts_fail _).congr (iff_of_false id fun hall => h ?_)
      exact (hall _ .root).length_inputs
    case isFalse h =>
      have hjobs (added : List StageJob) (sides : List Side)
          (hsides : LoweredInputs p inputs added sides) :=
        @accepts_placeJobs ⟨kind, inputs, schema, payload⟩ p sides hp (not_not.mp h)
          (hsides.sides_of hp)
      have hall := (accepts_lowerInputs hp inputs).bind (lowerInputs_adds p inputs) hjobs
      exact hall.congr (@forall_occurs_iff WellFormed ⟨kind, inputs, schema, payload⟩).symm

theorem accepts_lowerInputs (hp : 0 < p) : (plans : List PlanNode) →
    Accepts (lowerInputs p plans)
      (∀ plan ∈ plans, ∀ node : PlanNode, node.Occurs plan → node.WellFormed)
  | [] => by
    rw [lowerInputs]
    exact (accepts_pure []).holds nofun
  | plan :: plans => by
    rw [lowerInputs]
    refine ((accepts_lower hp plan).bind (lower_adds p plan) fun _ streams _ =>
      (accepts_lowerInputs hp plans).map (lowerInputs_adds p plans) _).congr ?_
    rw [List.forall_mem_cons]

end

theorem accepts_lowerToSink (hp : 0 < p) (plan : PlanNode) : Accepts (lowerToSink plan p)
    (∀ node : PlanNode, node.Occurs plan → node.WellFormed) := by
  refine ((accepts_lower hp plan).bind (lower_adds p plan) (Q := True)
    fun _ streams hlowered b => ?_).congr (and_iff_left trivial)
  have hcount := mt List.length_eq_zero_iff.mp (hlowered.streams_ne_nil hp)
  have hsink := (accepts_place .aggregate streams 1 plan.schema []).congr
    (iff_of_true ⟨Nat.one_ne_zero, hcount, trivial⟩ trivial)
  exact hsink.map (adds_place _ _ _ _ _) (fun _ => b.jobs.length) b

end PlanNode

/-- The planner accepts exactly the well-formed plans, where it has a worker at all. -/
theorem StageGraph.ofPlan_accepts_iff (plan : PlanNode) (p : Nat) (workers : List WorkerInfo)
    (names : NameSupply) :
    (∃ graph scheduler, StageGraph.ofPlan plan p (.create workers names) = (.ok graph, scheduler)) ↔
      0 < p ∧ workers ≠ [] ∧ ∀ node : PlanNode, node.Occurs plan → node.WellFormed := by
  rw [ofPlan]
  by_cases hp : p = 0
  · simp [hp]
  by_cases hw : workers = []
  · simp [hp, hw, Scheduler.hasWorkers, Scheduler.create]
  have hworkers : (Scheduler.create workers names).hasWorkers = true := by
    simpa [Scheduler.hasWorkers, Scheduler.create] using hw
  have hpos : 0 < p := Nat.pos_of_ne_zero hp
  have haccepts := (PlanNode.accepts_lowerToSink hpos plan
    { scheduler := .create workers names } (Scheduler.create_ready hw)).1
  rw [if_neg hp, hworkers, if_neg (by simp), and_iff_right hpos, and_iff_right hw, ← haccepts]
  rcases plan.lowerToSink p { scheduler := .create workers names } with ⟨_ | index, builder⟩
  · simp [Except.map]
  · simp [Except.map]

end StagedQuery

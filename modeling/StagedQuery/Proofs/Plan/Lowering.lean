import Mathlib.Data.List.Forall2
import StagedQuery.Plan.Lowering
import StagedQuery.Proofs.Action

/-!
# What lowering places

Which jobs a plan is lowered to, without the order in which they are placed and the workers they
are placed on. `NodeJobs` is the table: for each kind of node, the jobs that it adds to the
streams of its inputs, and its own streams. `Lowered` goes from nodes to trees. That lowering
follows the table is `PlanNode.lower_adds` and `StageGraph.ofPlan_lowered`; what else is said
about stage graphs is said about the table.
-/

namespace StagedQuery

/-! ### Adding jobs -/

/-- When the action succeeds, it has added some jobs to those placed before, each at the first
channel of its executor, and they and its result are as `post` says. -/
def Builder.Adds {α : Type} (x : Action Builder α) (post : List StageJob → α → Prop) : Prop :=
  ∀ b a b', x b = (.ok a, b') → ∃ added, b'.jobs = b.jobs ++ added ∧
    (∀ job ∈ added, job.location.channel = 0) ∧ post added a

/-- The job does `kind`, has `n` outputs of its own, and passes its checks. -/
structure StageJob.Does (kind : JobKind) (inputs : List Location) (n : Nat) (schema : Schema)
    (payload : Bytes) (job : StageJob) : Prop where
  kind_eq : job.kind = kind
  inputs_eq : job.inputs = inputs
  outputs_eq : job.outputs = (List.range n).map job.location.withChannel
  schema_eq : job.schema = schema
  payload_eq : job.payload = payload
  valid : job.validate = .ok ()

/-- What stands in the second list stands there for something in the first one. -/
theorem exists_of_forall₂ {α β : Type} {R : α → β → Prop} {as : List α} {bs : List β}
    (h : List.Forall₂ R as bs) {b : β} (hb : b ∈ bs) : ∃ a ∈ as, R a b := by
  induction h with
  | nil => cases hb
  | @cons a first _ _ hfirst _ ih =>
    rcases List.mem_cons.mp hb with rfl | hb
    · exact ⟨a, List.mem_cons_self, hfirst⟩
    · obtain ⟨a', ha', hr⟩ := ih hb
      exact ⟨a', List.mem_cons_of_mem a ha', hr⟩

/-- The outputs of some jobs. -/
def outputsOf (jobs : List StageJob) : List Location := jobs.flatMap (·.outputs)

/-- The inputs of some jobs. -/
def inputsOf (jobs : List StageJob) : List Location := jobs.flatMap (·.inputs)

@[simp] theorem outputsOf_nil : outputsOf [] = [] := rfl

@[simp] theorem outputsOf_cons (job : StageJob) (jobs : List StageJob) :
    outputsOf (job :: jobs) = job.outputs ++ outputsOf jobs := rfl

@[simp] theorem outputsOf_append (js ks : List StageJob) :
    outputsOf (js ++ ks) = outputsOf js ++ outputsOf ks := List.flatMap_append

@[simp] theorem inputsOf_nil : inputsOf [] = [] := rfl

@[simp] theorem inputsOf_cons (job : StageJob) (jobs : List StageJob) :
    inputsOf (job :: jobs) = job.inputs ++ inputsOf jobs := rfl

@[simp] theorem inputsOf_append (js ks : List StageJob) :
    inputsOf (js ++ ks) = inputsOf js ++ inputsOf ks := List.flatMap_append

namespace Builder

variable {α β : Type}

theorem Adds.mono {x : Action Builder α} {post post' : List StageJob → α → Prop}
    (h : Adds x post) (himp : ∀ added a, post added a → post' added a) : Adds x post' := by
  intro b a b' hx
  obtain ⟨added, hjobs, hchannel, hpost⟩ := h b a b' hx
  exact ⟨added, hjobs, hchannel, himp added a hpost⟩

theorem adds_pure (a : α) : Adds (pure a) fun added a' => added = [] ∧ a' = a := by
  rintro b a' b' ⟨⟩
  exact ⟨[], (List.append_nil _).symm, nofun, rfl, rfl⟩

theorem adds_fail (e : Error) : Adds (.fail e : Action Builder α) fun _ _ => False := by
  rintro b a b' ⟨⟩

theorem adds_ofExcept (x : Except Error α) :
    Adds (.ofExcept x) fun added a => added = [] ∧ x = .ok a := by
  intro b a b' h
  obtain ⟨hx, rfl⟩ := Action.ofExcept_eq_ok.mp h
  exact ⟨[], (List.append_nil _).symm, nofun, rfl, hx⟩

theorem Adds.bind {x : Action Builder α} {f : α → Action Builder β}
    {post : List StageJob → α → Prop} {post' : α → List StageJob → β → Prop} (hx : Adds x post)
    (hf : ∀ a, Adds (f a) (post' a)) :
    Adds (x >>= f) fun added b => ∃ a before after, post before a ∧ post' a after b ∧
      added = before ++ after := by
  intro s b s' h
  obtain ⟨a, t, hx', hf'⟩ := Action.bind_eq_ok.mp h
  obtain ⟨before, hbefore, hchannel, hpost⟩ := hx s a t hx'
  obtain ⟨after, hafter, hchannel', hpost'⟩ := hf a t b s' hf'
  exact ⟨before ++ after, by rw [hafter, hbefore, List.append_assoc],
    List.forall_mem_append.mpr ⟨hchannel, hchannel'⟩, a, before, after, hpost, hpost', rfl⟩

/-- A result that is only passed on. -/
theorem Adds.map {x : Action Builder α} {post : List StageJob → α → Prop} (hx : Adds x post)
    (f : α → β) : Adds (do return f (← x)) fun added b => ∃ a, post added a ∧ b = f a := by
  refine (hx.bind fun a => adds_pure (f a)).mono ?_
  rintro added b ⟨a, before, after, hpost, ⟨rfl, rfl⟩, rfl⟩
  exact ⟨a, by rwa [List.append_nil], rfl⟩

/-- One job for each entry of a list, each with outputs that are its results. -/
theorem adds_collect {f : α → Action Builder (List β)} {is : α → StageJob → Prop}
    {result : StageJob → List β}
    (hf : ∀ a, Adds (f a) fun added b => ∃ job, added = [job] ∧ is a job ∧ b = result job)
    (as : List α) :
    Adds (Action.collect f as) fun added bs => List.Forall₂ is as added ∧
      bs = added.flatMap result := by
  induction as with
  | nil =>
    refine (adds_pure []).mono ?_
    rintro added bs ⟨rfl, rfl⟩
    exact ⟨.nil, rfl⟩
  | cons a as ih =>
    refine ((hf a).bind fun bs => (ih.map fun rest => bs ++ rest)).mono ?_
    rintro added bs ⟨_, _, after, ⟨job, rfl, hjob, rfl⟩, ⟨rest, ⟨hrest, rfl⟩, rfl⟩, rfl⟩
    exact ⟨.cons hjob hrest, rfl⟩

theorem allocate_channel {s s' : Scheduler} {location : Location}
    (h : Scheduler.allocate s = (.ok location, s')) : location.channel = 0 := by
  unfold Scheduler.allocate at h
  split at h
  · cases h
  split at h
  · cases h
  · cases h
    rfl

theorem allocate_zoom {b b' : Builder} {location : Location}
    (h : (Scheduler.allocate.zoom (·.scheduler) fun b scheduler => { b with scheduler }) b =
      (.ok location, b')) : b'.jobs = b.jobs ∧ location.channel = 0 := by
  simp only [Action.zoom, Prod.mk.injEq] at h
  exact ⟨by rw [← h.2], allocate_channel (Prod.ext h.1 rfl)⟩

/-- A placed job is as it was asked for, and passed its checks. -/
theorem adds_place (kind : JobKind) (inputs : List Location) (n : Nat) (schema : Schema)
    (payload : Bytes) :
    Adds (place kind inputs n schema payload) fun added job =>
      added = [job] ∧ job.Does kind inputs n schema payload := by
  intro b job b' h
  rw [place, Action.bind_ok (Action.get_apply b)] at h
  obtain ⟨location, c, hlocation, hrest⟩ := Action.bind_eq_ok.mp h
  obtain ⟨_, d, hcheck, hadd⟩ := Action.bind_eq_ok.mp hrest
  obtain ⟨hvalid, rfl⟩ := Action.ofExcept_eq_ok.mp hcheck
  cases hadd
  obtain ⟨hjobs, hchannel⟩ := allocate_zoom hlocation
  refine ⟨_, ?_, List.forall_mem_singleton.mpr hchannel, rfl, rfl, rfl, rfl, rfl, rfl, hvalid⟩
  rw [← hjobs]

theorem adds_placeOne (node : PlanNode) (kind : JobKind) (inputs : List Location) :
    Adds (placeOne node kind inputs) fun added streams =>
      ∃ job, added = [job] ∧ job.Does kind inputs 1 node.schema node.payload ∧
        streams = job.outputs := by
  refine ((adds_place kind inputs 1 node.schema node.payload).map (·.outputs)).mono ?_
  rintro added streams ⟨job, ⟨rfl, hjob⟩, rfl⟩
  exact ⟨job, rfl, hjob, rfl⟩

/-- A job with one output for each entry of a list. -/
theorem adds_layer (node : PlanNode) (kind : α → JobKind) (inputs : α → List Location)
    (as : List α) :
    Adds (Action.collect (fun a => placeOne node (kind a) (inputs a)) as) fun added streams =>
      List.Forall₂ (fun a => StageJob.Does (kind a) (inputs a) 1 node.schema node.payload)
        as added ∧ streams = outputsOf added :=
  adds_collect (fun a => adds_placeOne node (kind a) (inputs a)) as

end Builder

/-! ### The table of nodes -/

namespace PlanKind

/-- What is done with each stream of the input, for the kinds that look at one row at a time. -/
def perStream? : PlanKind → Option JobKind
  | .filter => some .filter
  | .groupBy => some .groupBy
  | .aggregateLocal => some .aggregateLocal
  | .distinctLocal => some .distinctLocal
  | .select false => some .select
  | _ => none

/-- What is done with all streams of the input at once, for the kinds that need every row. -/
def onWhole? : PlanKind → Option JobKind
  | .aggregateGlobal => some .aggregateGlobal
  | .distinctGlobal => some .distinctGlobal
  | .«show» => some .«show»
  | .insert => some .insert
  | _ => none

/-- What is done first with each stream and then with all results, for the kinds in two phases. -/
def phases? : PlanKind → Option (JobKind × JobKind)
  | .orderBy keys => some (.orderByLocal keys, .orderByGlobal keys)
  | .limit count => some (.limit count, .limit count)
  | _ => none

end PlanKind

/-- A side whose streams go through one job under some condition, and else stay as they are:
the jobs for that, and the streams after it. -/
inductive Rerouted (condition : Prop) (kind : JobKind) (n : Nat) (side : Side) :
    List StageJob → List Location → Prop
  | through {job : StageJob} (h : condition) (hj : job.Does kind side.streams n side.schema []) :
    Rerouted condition kind n side [job] job.outputs
  | past (h : ¬ condition) : Rerouted condition kind n side [] side.streams

/-- The streams of a side in one. -/
abbrev Gathered (side : Side) := Rerouted (1 < side.streams.length) .aggregate 1 side

/-- The single stream of a side in as many as the query is parallel. -/
abbrev Spread (p : Nat) (side : Side) :=
  Rerouted (side.streams.length = 1 ∧ 1 < p) .balance p side

/-- The jobs of a node over the streams of its inputs, and its streams. -/
inductive NodeJobs (node : PlanNode) (p : Nat) :
    List Side → List StageJob → List Location → Prop
  /-- A table is scanned in slices. -/
  | scan {table : TableScan} {kinds : List JobKind} {jobs : List StageJob}
    (hk : node.kind = .scan table) (hs : table.slices p = .ok kinds)
    (hj : List.Forall₂ (fun kind => StageJob.Does kind [] 1 node.schema node.payload)
      kinds jobs) :
    NodeJobs node p [] jobs (outputsOf jobs)
  /-- One job for each stream. -/
  | each {kind : JobKind} {side : Side} {jobs : List StageJob}
    (hk : node.kind.perStream? = some kind)
    (hj : List.Forall₂ (fun stream => StageJob.Does kind [stream] 1 node.schema node.payload)
      side.streams jobs) :
    NodeJobs node p [side] jobs (outputsOf jobs)
  /-- One job for all streams. -/
  | whole {kind : JobKind} {side : Side} {job : StageJob}
    (hk : node.kind.onWhole? = some kind)
    (hj : job.Does kind side.streams 1 node.schema node.payload) :
    NodeJobs node p [side] [job] job.outputs
  /-- The streams are gathered first. -/
  | distinct {side : Side} {gathering : List StageJob} {streams : List Location} {job : StageJob}
    (hk : node.kind = .select true) (hg : Gathered side gathering streams)
    (hj : job.Does .select streams 1 node.schema node.payload) :
    NodeJobs node p [side] (gathering ++ [job]) job.outputs
  /-- One job for each stream, and one for their results. -/
  | phases {first second : JobKind} {side : Side} {jobs : List StageJob} {job : StageJob}
    (hk : node.kind.phases? = some (first, second))
    (hj : List.Forall₂ (fun stream => StageJob.Does first [stream] 1 node.schema node.payload)
      side.streams jobs)
    (hl : job.Does second (outputsOf jobs) 1 node.schema node.payload) :
    NodeJobs node p [side] (jobs ++ [job]) job.outputs
  /-- One job for each left stream, with a copy of the whole right side. -/
  | join {left right : Side} {spreading jobs : List StageJob} {streams : List Location}
    {copier : StageJob} (hk : node.kind = .join) (hs : Spread p left spreading streams)
    (hc : copier.Does .duplicate right.streams streams.length right.schema [])
    (hj : List.Forall₂
      (fun pair => StageJob.Does (.join 1) [pair.1, pair.2] 1 node.schema node.payload)
      (streams.zip copier.outputs) jobs) :
    NodeJobs node p [left, right] (spreading ++ ([copier] ++ jobs)) (outputsOf jobs)
  /-- Job `i` has output `i` of every shuffle. -/
  | hashJoin {leftKeys rightKeys : List Nat} {left right : Side}
    {lefts rights jobs : List StageJob} (hk : node.kind = .hashJoin leftKeys rightKeys)
    (hl : List.Forall₂
      (fun stream => StageJob.Does (.shuffle leftKeys) [stream] p left.schema [])
      left.streams lefts)
    (hr : List.Forall₂
      (fun stream => StageJob.Does (.shuffle rightKeys) [stream] p right.schema [])
      right.streams rights)
    (hj : List.Forall₂ (fun i => StageJob.Does (.hashJoin lefts.length leftKeys rightKeys)
      ((lefts ++ rights).filterMap (·.outputs[i]?)) 1 node.schema node.payload)
      (List.range p) jobs) :
    NodeJobs node p [left, right] (lefts ++ (rights ++ jobs)) (outputsOf jobs)
  /-- A union stream by stream. -/
  | pairwise {left right : Side} {jobs : List StageJob} (hk : node.kind = .union)
    (hn : left.streams.length = right.streams.length)
    (hj : List.Forall₂
      (fun pair => StageJob.Does .union [pair.1, pair.2] 1 node.schema node.payload)
      (left.streams.zip right.streams) jobs) :
    NodeJobs node p [left, right] jobs (outputsOf jobs)
  /-- A union in one. -/
  | merged {left right : Side} {job : StageJob} (hk : node.kind = .union)
    (hn : left.streams.length ≠ right.streams.length)
    (hj : job.Does .union (left.streams ++ right.streams) 1 node.schema node.payload) :
    NodeJobs node p [left, right] [job] job.outputs

namespace PlanNode

open Builder

/-! ### Placing the jobs of a node -/

theorem adds_reroute (condition : Prop) [Decidable condition] (kind : JobKind) (n : Nat)
    (side : Side) :
    Adds (if condition then
        do return (← place kind side.streams n side.schema []).outputs
      else pure side.streams) (Rerouted condition kind n side) := by
  split
  case isTrue h =>
    refine ((adds_place kind side.streams n side.schema []).map (·.outputs)).mono ?_
    rintro added streams ⟨job, ⟨rfl, hjob⟩, rfl⟩
    exact .through h hjob
  case isFalse h =>
    refine (adds_pure side.streams).mono ?_
    rintro added streams ⟨rfl, rfl⟩
    exact .past h

theorem adds_gather (side : Side) : Adds (gather side) (Gathered side) :=
  adds_reroute (1 < side.streams.length) .aggregate 1 side

theorem adds_spread (p : Nat) (side : Side) : Adds (spread p side) (Spread p side) :=
  adds_reroute (side.streams.length = 1 ∧ 1 < p) .balance p side

variable (node : PlanNode) (p : Nat)

theorem adds_placeScans {table : TableScan} (hk : node.kind = .scan table) :
    Adds (node.placeScans p table) (NodeJobs node p []) := by
  refine ((adds_ofExcept (table.slices p)).bind fun kinds =>
    adds_layer node id (fun _ => []) kinds).mono ?_
  rintro added streams ⟨kinds, _, jobs, ⟨rfl, hs⟩, ⟨hj, rfl⟩, rfl⟩
  exact .scan hk hs hj

theorem adds_placeJoin (hk : node.kind = .join) (left right : Side) :
    Adds (node.placeJoin p left right) (NodeJobs node p [left, right]) := by
  have hjobs (streams : List Location) (copier : StageJob) :=
    adds_layer node (fun _ => .join 1) (fun pair => [pair.1, pair.2]) (streams.zip copier.outputs)
  have hcopies (streams : List Location) :=
    (adds_place .duplicate right.streams streams.length right.schema []).bind (hjobs streams)
  refine ((adds_spread p left).bind hcopies).mono ?_
  rintro added outs ⟨streams, spreading, _, hs, ⟨copier, _, jobs, ⟨rfl, hc⟩, ⟨hj, rfl⟩, rfl⟩, rfl⟩
  exact .join hk hs hc hj

theorem adds_shuffle (side : Side) (keys : List Nat) :
    Adds (shuffle p side keys) fun added jobs => List.Forall₂
      (fun stream => StageJob.Does (.shuffle keys) [stream] p side.schema []) side.streams added ∧
      jobs = added := by
  have hone (stream : Location) : Adds
      (do return [← place (.shuffle keys) [stream] p side.schema []]) fun added jobs =>
        ∃ job, added = [job] ∧ job.Does (.shuffle keys) [stream] p side.schema [] ∧
          jobs = [job] := by
    refine ((adds_place (.shuffle keys) [stream] p side.schema []).map fun job => [job]).mono ?_
    rintro added jobs ⟨job, ⟨rfl, hjob⟩, rfl⟩
    exact ⟨job, rfl, hjob, rfl⟩
  refine (adds_collect hone side.streams).mono ?_
  rintro added jobs ⟨hj, rfl⟩
  exact ⟨hj, List.flatMap_singleton' added⟩

theorem adds_placeHashJoin {leftKeys rightKeys : List Nat}
    (hk : node.kind = .hashJoin leftKeys rightKeys) (left right : Side) :
    Adds (node.placeHashJoin p leftKeys rightKeys left right) (NodeJobs node p [left, right]) := by
  have hjobs (lefts rights : List StageJob) :=
    adds_layer node (fun _ => .hashJoin lefts.length leftKeys rightKeys)
      (fun i => (lefts ++ rights).filterMap (·.outputs[i]?)) (List.range p)
  have hrights (lefts : List StageJob) := (adds_shuffle p right rightKeys).bind (hjobs lefts)
  refine ((adds_shuffle p left leftKeys).bind hrights).mono ?_
  rintro added streams ⟨_, lefts, _, ⟨hl, rfl⟩, ⟨_, rights, jobs, ⟨hr, rfl⟩, ⟨hj, rfl⟩, rfl⟩, rfl⟩
  exact .hashJoin hk hl hr hj

theorem adds_placeUnion (hk : node.kind = .union) (left right : Side) :
    Adds (node.placeUnion left right) (NodeJobs node p [left, right]) := by
  rw [placeUnion]
  split
  case isTrue hn =>
    refine (adds_layer node (fun _ => .union) (fun pair => [pair.1, pair.2])
      (left.streams.zip right.streams)).mono ?_
    rintro added streams ⟨hj, rfl⟩
    exact .pairwise hk hn hj
  case isFalse hn =>
    refine (adds_placeOne node .union (left.streams ++ right.streams)).mono ?_
    rintro added streams ⟨job, rfl, hj, rfl⟩
    exact .merged hk hn hj

theorem adds_each {kind : JobKind} (hk : node.kind.perStream? = some kind) (side : Side) :
    Adds (placeEach node kind side.streams) (NodeJobs node p [side]) := by
  refine (adds_layer node (fun _ => kind) (fun stream => [stream]) side.streams).mono ?_
  rintro added streams ⟨hj, rfl⟩
  exact .each hk hj

theorem adds_whole {kind : JobKind} (hk : node.kind.onWhole? = some kind) (side : Side) :
    Adds (placeOne node kind side.streams) (NodeJobs node p [side]) := by
  refine (adds_placeOne node kind side.streams).mono ?_
  rintro added streams ⟨job, rfl, hj, rfl⟩
  exact .whole hk hj

theorem adds_phases {first second : JobKind} (hk : node.kind.phases? = some (first, second))
    (side : Side) :
    Adds (do placeOne node second (← placeEach node first side.streams))
      (NodeJobs node p [side]) := by
  have hfirst := adds_layer node (fun _ => first) (fun stream => [stream]) side.streams
  refine (hfirst.bind fun streams => adds_placeOne node second streams).mono ?_
  rintro added streams ⟨_, jobs, _, ⟨hj, rfl⟩, ⟨job, rfl, hl, rfl⟩, rfl⟩
  exact .phases hk hj hl

theorem adds_distinct (hk : node.kind = .select true) (side : Side) :
    Adds (do placeOne node .select (← gather side)) (NodeJobs node p [side]) := by
  refine ((adds_gather side).bind fun streams =>
    adds_placeOne node .select streams).mono ?_
  rintro added outs ⟨streams, gathering, _, hg, ⟨job, rfl, hj, rfl⟩, rfl⟩
  exact .distinct hk hg hj

/-- The jobs of a node are as the table says. -/
theorem adds_placeJobs (sides : List Side) :
    Adds (node.placeJobs p sides) (NodeJobs node p sides) := by
  unfold placeJobs
  split
  case h_1 table hk => exact adds_placeScans node p hk
  case h_2 side hk => exact adds_each node p (by rw [hk]; rfl) side
  case h_3 side hk => exact adds_each node p (by rw [hk]; rfl) side
  case h_4 side hk => exact adds_each node p (by rw [hk]; rfl) side
  case h_5 side hk => exact adds_each node p (by rw [hk]; rfl) side
  case h_6 side hk => exact adds_each node p (by rw [hk]; rfl) side
  case h_7 side hk => exact adds_distinct node p hk side
  case h_8 side hk => exact adds_whole node p (by rw [hk]; rfl) side
  case h_9 side hk => exact adds_whole node p (by rw [hk]; rfl) side
  case h_10 side hk => exact adds_whole node p (by rw [hk]; rfl) side
  case h_11 side hk => exact adds_whole node p (by rw [hk]; rfl) side
  case h_12 keys side hk => exact adds_phases node p (by rw [hk]; rfl) side
  case h_13 count side hk => exact adds_phases node p (by rw [hk]; rfl) side
  case h_14 left right hk => exact adds_placeJoin node p hk left right
  case h_15 leftKeys rightKeys left right hk => exact adds_placeHashJoin node p hk left right
  case h_16 left right hk => exact adds_placeUnion node p hk left right
  case h_17 =>
    refine (adds_fail node.inputFault).mono ?_
    rintro added streams ⟨⟩

end PlanNode

/-! ### From nodes to trees -/

mutual

/-- The jobs of a tree, and the streams of its root. -/
inductive Lowered (p : Nat) : PlanNode → List StageJob → List Location → Prop
  | node {node : PlanNode} {below jobs : List StageJob} {sides : List Side}
    {streams : List Location} (hi : LoweredInputs p node.inputs below sides)
    (hj : NodeJobs node p sides jobs streams) : Lowered p node (below ++ jobs) streams

/-- The jobs of several trees, from the left, and their sides. -/
inductive LoweredInputs (p : Nat) : List PlanNode → List StageJob → List Side → Prop
  | nil : LoweredInputs p [] [] []
  | cons {node : PlanNode} {nodes : List PlanNode} {first rest : List StageJob}
    {streams : List Location} {sides : List Side} (hf : Lowered p node first streams)
    (hr : LoweredInputs p nodes rest sides) :
    LoweredInputs p (node :: nodes) (first ++ rest) (⟨node.schema, streams⟩ :: sides)

end

namespace PlanNode

open Builder

mutual

/-- Lowering follows the table at every node. -/
theorem lower_adds (p : Nat) : (node : PlanNode) → Adds (lower p node) (Lowered p node)
  | ⟨kind, inputs, schema, payload⟩ => by
    rw [lower]
    split
    case isTrue h =>
      refine (adds_fail (inputFault ⟨kind, inputs, schema, payload⟩)).mono ?_
      rintro added streams ⟨⟩
    case isFalse h =>
      refine ((lowerInputs_adds p inputs).bind
        (adds_placeJobs ⟨kind, inputs, schema, payload⟩ p)).mono ?_
      rintro added streams ⟨sides, below, jobs, hi, hj, rfl⟩
      exact .node hi hj

theorem lowerInputs_adds (p : Nat) :
    (nodes : List PlanNode) → Adds (lowerInputs p nodes) (LoweredInputs p nodes)
  | [] => by
    rw [lowerInputs]
    refine (adds_pure []).mono ?_
    rintro added sides ⟨rfl, rfl⟩
    exact .nil
  | node :: nodes => by
    rw [lowerInputs]
    refine ((lower_adds p node).bind fun streams =>
      (lowerInputs_adds p nodes).map fun sides => ⟨node.schema, streams⟩ :: sides).mono ?_
    rintro added _ ⟨streams, first, rest, hf, ⟨sides, hr, rfl⟩, rfl⟩
    exact .cons hf hr

end

end PlanNode

/-- A graph is what stands in the builder when lowering came to the sink; without workers, and for a
query that is not parallel at all, there is none. -/
theorem StageGraph.ofPlan_eq_ok {plan : PlanNode} {p : Nat} {scheduler scheduler' : Scheduler}
    {graph : StageGraph} (h : StageGraph.ofPlan plan p scheduler = (.ok graph, scheduler')) :
    0 < p ∧ scheduler.workers ≠ [] ∧ plan.lowerToSink p { scheduler } =
      (.ok graph.sink, { scheduler := scheduler', jobs := graph.jobs }) := by
  unfold ofPlan at h
  split at h
  · cases h
  split at h
  · cases h
  rename_i hp hworkers
  rcases hrun : plan.lowerToSink p { scheduler } with ⟨_ | index, builder⟩
  · rw [hrun] at h
    cases h
  · rw [hrun] at h
    cases h
    exact ⟨Nat.pos_of_ne_zero hp, by simpa [Scheduler.hasWorkers] using hworkers, rfl⟩

/-- The jobs of a graph are those of its plan and, last, the sink. Each is placed at the first
channel of its executor. -/
theorem StageGraph.ofPlan_placed {plan : PlanNode} {p : Nat} {scheduler scheduler' : Scheduler}
    {graph : StageGraph} (h : StageGraph.ofPlan plan p scheduler = (.ok graph, scheduler')) :
    (∃ jobs streams sink, Lowered p plan jobs streams ∧
      sink.Does .aggregate streams 1 plan.schema [] ∧ graph.jobs = jobs ++ [sink] ∧
      graph.sink = jobs.length) ∧
    ∀ job ∈ graph.jobs, job.location.channel = 0 := by
  obtain ⟨-, -, hrun⟩ := ofPlan_eq_ok h
  obtain ⟨streams, b, hlower, hrest⟩ := Action.bind_eq_ok.mp hrun
  obtain ⟨jobs, hjobs, hchannels, hlowered⟩ := PlanNode.lower_adds p plan _ _ _ hlower
  rw [Action.bind_ok (Action.get_apply b)] at hrest
  obtain ⟨sink, b', hplace, hpure⟩ := Action.bind_eq_ok.mp hrest
  obtain ⟨_, hsink, hchannel, rfl, hdoes⟩ := Builder.adds_place _ _ _ _ _ _ _ _ hplace
  rw [Action.pure_apply, Prod.mk.injEq, Except.ok.injEq] at hpure
  obtain ⟨hindex, rfl⟩ := hpure
  rw [List.nil_append] at hjobs
  rw [hjobs] at hsink hindex
  have hall : graph.jobs = jobs ++ [sink] := hsink
  refine ⟨⟨jobs, streams, sink, hlowered, hdoes, hall, hindex.symm⟩, ?_⟩
  rw [hall]
  exact List.forall_mem_append.mpr ⟨hchannels, hchannel⟩

/-- The jobs of a graph are those of its plan and, last, the sink. -/
theorem StageGraph.ofPlan_lowered {plan : PlanNode} {p : Nat} {scheduler scheduler' : Scheduler}
    {graph : StageGraph} (h : StageGraph.ofPlan plan p scheduler = (.ok graph, scheduler')) :
    ∃ jobs streams sink, Lowered p plan jobs streams ∧
      sink.Does .aggregate streams 1 plan.schema [] ∧ graph.jobs = jobs ++ [sink] ∧
      graph.sink = jobs.length :=
  (ofPlan_placed h).1

theorem StageGraph.ofPlan_pos {plan : PlanNode} {p : Nat} {scheduler scheduler' : Scheduler}
    {graph : StageGraph} (h : StageGraph.ofPlan plan p scheduler = (.ok graph, scheduler')) :
    0 < p := (ofPlan_eq_ok h).1

/-! ### Nodes inside a tree -/

/-- A node occurs in a tree, as its root or below. -/
inductive PlanNode.Occurs (node : PlanNode) : PlanNode → Prop
  | root : Occurs node node
  | under {plan input : PlanNode} (hi : input ∈ plan.inputs) (ho : Occurs node input) :
    Occurs node plan

theorem LoweredInputs.jobs_of_mem {p : Nat} {nodes : List PlanNode} {jobs : List StageJob}
    {sides : List Side} {node : PlanNode} (h : LoweredInputs p nodes jobs sides)
    (hm : node ∈ nodes) :
    ∃ own streams before after, Lowered p node own streams ∧ jobs = before ++ own ++ after := by
  induction nodes generalizing jobs sides with
  | nil => cases hm
  | cons first nodes ih =>
    cases h with
    | @cons _ _ own rest streams _ hf hr =>
      rcases List.mem_cons.mp hm with rfl | hm
      · exact ⟨own, streams, [], rest, hf, rfl⟩
      · obtain ⟨own', streams', before, after, hlowered, rfl⟩ := ih hr hm
        exact ⟨own', streams', own ++ before, after, hlowered, by simp only [List.append_assoc]⟩

/-- The jobs of a node are next to those of its inputs. -/
theorem Lowered.jobs_of_occurs {p : Nat} {plan node : PlanNode} {jobs : List StageJob}
    {streams : List Location} (h : Lowered p plan jobs streams) (ho : node.Occurs plan) :
    ∃ below own sides ownStreams before after, LoweredInputs p node.inputs below sides ∧
      NodeJobs node p sides own ownStreams ∧ jobs = before ++ (below ++ own) ++ after := by
  induction ho generalizing jobs streams with
  | root =>
    cases h with
    | @node _ below own sides _ hi hj =>
      exact ⟨below, own, sides, streams, [], [], hi, hj, by simp⟩
  | under hin _ ih =>
    cases h with
    | @node _ inputs own sides _ hi hj =>
      obtain ⟨jobs', streams', before, after, hlowered, rfl⟩ := hi.jobs_of_mem hin
      obtain ⟨below, own', sides', ownStreams, before', after', hi', hj', rfl⟩ := ih hlowered
      exact ⟨below, own', sides', ownStreams, before ++ before', after' ++ (after ++ own), hi', hj',
        by simp only [List.append_assoc]⟩

/-! ### The jobs of scans and joins -/

/-- A table is scanned in as many slices as the query is parallel. -/
theorem TableScan.slices_eq_ok {table : TableScan} {p : Nat} {kinds : List JobKind}
    (h : table.slices p = .ok kinds) :
    kinds.length = p ∧ ∀ kind ∈ kinds, ∃ name partitions files,
      kind = .scan name partitions files := by
  rw [slices] at h
  split at h
  · cases h
    simp
  · obtain ⟨kept, -, h⟩ := Result.bind_eq_ok.mp h
    cases h
    simp

/-- The jobs of a scan. -/
theorem NodeJobs.of_scan {node : PlanNode} {p : Nat} {sides : List Side} {own : List StageJob}
    {streams : List Location} (h : NodeJobs node p sides own streams) {table : TableScan}
    (hk : node.kind = .scan table) :
    ∃ kinds, sides = [] ∧ table.slices p = .ok kinds ∧
      List.Forall₂ (fun kind => StageJob.Does kind [] 1 node.schema node.payload) kinds own ∧
      streams = outputsOf own := by
  cases h with
  | scan hk' hs hj =>
    rw [hk] at hk'
    cases hk'
    exact ⟨_, rfl, hs, hj, rfl⟩
  | each hk' => rw [hk] at hk'; cases hk'
  | whole hk' => rw [hk] at hk'; cases hk'
  | distinct hk' => rw [hk] at hk'; cases hk'
  | phases hk' => rw [hk] at hk'; cases hk'
  | join hk' => rw [hk] at hk'; cases hk'
  | hashJoin hk' => rw [hk] at hk'; cases hk'
  | pairwise hk' => rw [hk] at hk'; cases hk'
  | merged hk' => rw [hk] at hk'; cases hk'

/-- A scan with no inputs is nothing but its slices. -/
theorem Lowered.of_scan {node : PlanNode} {p : Nat} {jobs : List StageJob}
    {streams : List Location} (h : Lowered p node jobs streams) {table : TableScan}
    (hk : node.kind = .scan table) (hi : node.inputs = []) :
    ∃ kinds, table.slices p = .ok kinds ∧
      List.Forall₂ (fun kind => StageJob.Does kind [] 1 node.schema node.payload) kinds jobs ∧
      streams = outputsOf jobs := by
  cases h with
  | node hinputs hjobs =>
    rw [hi] at hinputs
    cases hinputs
    obtain ⟨kinds, -, hslices, hdoes, hstreams⟩ := hjobs.of_scan hk
    exact ⟨kinds, hslices, hdoes, hstreams⟩

/-- The jobs of a hash join. -/
theorem NodeJobs.of_hashJoin {node : PlanNode} {p : Nat} {sides : List Side}
    {own : List StageJob} {streams : List Location} (h : NodeJobs node p sides own streams)
    {leftKeys rightKeys : List Nat} (hk : node.kind = .hashJoin leftKeys rightKeys) :
    ∃ (left right : Side) (lefts rights joins : List StageJob), sides = [left, right] ∧
      own = lefts ++ (rights ++ joins) ∧
      List.Forall₂ (fun l => StageJob.Does (.shuffle leftKeys) [l] p left.schema [])
        left.streams lefts ∧
      List.Forall₂ (fun l => StageJob.Does (.shuffle rightKeys) [l] p right.schema [])
        right.streams rights ∧
      List.Forall₂ (fun i => StageJob.Does (.hashJoin lefts.length leftKeys rightKeys)
        ((lefts ++ rights).filterMap (·.outputs[i]?)) 1 node.schema node.payload)
        (List.range p) joins := by
  cases h with
  | hashJoin hk' hl hr hj =>
    rw [hk] at hk'
    cases hk'
    exact ⟨_, _, _, _, _, rfl, rfl, hl, hr, hj⟩
  | scan hk' => rw [hk] at hk'; cases hk'
  | each hk' => rw [hk] at hk'; cases hk'
  | whole hk' => rw [hk] at hk'; cases hk'
  | distinct hk' => rw [hk] at hk'; cases hk'
  | phases hk' => rw [hk] at hk'; cases hk'
  | join hk' => rw [hk] at hk'; cases hk'
  | pairwise hk' => rw [hk] at hk'; cases hk'
  | merged hk' => rw [hk] at hk'; cases hk'

/-- The jobs of a join of nested loops. -/
theorem NodeJobs.of_join {node : PlanNode} {p : Nat} {sides : List Side} {own : List StageJob}
    {streams : List Location} (h : NodeJobs node p sides own streams) (hk : node.kind = .join) :
    ∃ (left right : Side) (spreading joins : List StageJob) (copier : StageJob)
      (spread : List Location), sides = [left, right] ∧
      own = spreading ++ ([copier] ++ joins) ∧ Spread p left spreading spread ∧
      copier.Does .duplicate right.streams spread.length right.schema [] ∧
      List.Forall₂
        (fun pair => StageJob.Does (.join 1) [pair.1, pair.2] 1 node.schema node.payload)
        (spread.zip copier.outputs) joins := by
  cases h with
  | join hk' hs hc hj => exact ⟨_, _, _, _, _, _, rfl, rfl, hs, hc, hj⟩
  | scan hk' => rw [hk] at hk'; cases hk'
  | each hk' => rw [hk] at hk'; cases hk'
  | whole hk' => rw [hk] at hk'; cases hk'
  | distinct hk' => rw [hk] at hk'; cases hk'
  | phases hk' => rw [hk] at hk'; cases hk'
  | hashJoin hk' => rw [hk] at hk'; cases hk'
  | pairwise hk' => rw [hk] at hk'; cases hk'
  | merged hk' => rw [hk] at hk'; cases hk'

/-! ### Where outputs are -/

/-- The outputs of the job are those of its own executor, one for each index. -/
def StageJob.OwnsOutputs (job : StageJob) : Prop :=
  ∃ n, job.outputs = (List.range n).map job.location.withChannel

theorem StageJob.Does.ownsOutputs {kind : JobKind} {inputs : List Location} {n : Nat}
    {schema : Schema} {payload : Bytes} {job : StageJob}
    (h : job.Does kind inputs n schema payload) : job.OwnsOutputs := ⟨n, h.outputs_eq⟩

theorem StageJob.ownsOutputs_of_layer {α : Type} {kind : α → JobKind} {inputs : α → List Location}
    {n : Nat} {schema : Schema} {payload : Bytes} {as : List α} {jobs : List StageJob}
    (h : List.Forall₂ (fun a => StageJob.Does (kind a) (inputs a) n schema payload) as jobs) :
    ∀ job ∈ jobs, job.OwnsOutputs := by
  intro job hjob
  obtain ⟨a, -, hdoes⟩ := exists_of_forall₂ h hjob
  exact hdoes.ownsOutputs

theorem Rerouted.ownsOutputs {condition : Prop} {kind : JobKind} {n : Nat} {side : Side}
    {jobs : List StageJob} {streams : List Location}
    (h : Rerouted condition kind n side jobs streams) : ∀ job ∈ jobs, job.OwnsOutputs := by
  cases h with
  | through _ hj => exact List.forall_mem_singleton.mpr hj.ownsOutputs
  | past _ => exact List.forall_mem_nil _

theorem NodeJobs.ownsOutputs {node : PlanNode} {p : Nat} {sides : List Side} {jobs : List StageJob}
    {streams : List Location} (h : NodeJobs node p sides jobs streams) :
    ∀ job ∈ jobs, job.OwnsOutputs := by
  cases h with
  | scan _ _ hj | each _ hj | pairwise _ _ hj => exact StageJob.ownsOutputs_of_layer hj
  | whole _ hj | merged _ _ hj => exact List.forall_mem_singleton.mpr hj.ownsOutputs
  | distinct _ hg hj =>
    exact List.forall_mem_append.mpr
      ⟨hg.ownsOutputs, List.forall_mem_singleton.mpr hj.ownsOutputs⟩
  | phases _ hj hl =>
    exact List.forall_mem_append.mpr
      ⟨StageJob.ownsOutputs_of_layer hj, List.forall_mem_singleton.mpr hl.ownsOutputs⟩
  | join _ hs hc hj =>
    exact List.forall_mem_append.mpr ⟨hs.ownsOutputs, List.forall_mem_append.mpr
      ⟨List.forall_mem_singleton.mpr hc.ownsOutputs, StageJob.ownsOutputs_of_layer hj⟩⟩
  | hashJoin _ hl hr hj =>
    exact List.forall_mem_append.mpr ⟨StageJob.ownsOutputs_of_layer hl, List.forall_mem_append.mpr
      ⟨StageJob.ownsOutputs_of_layer hr, StageJob.ownsOutputs_of_layer hj⟩⟩

mutual

theorem Lowered.ownsOutputs {p : Nat} {node : PlanNode} {jobs : List StageJob}
    {streams : List Location} : Lowered p node jobs streams → ∀ job ∈ jobs, job.OwnsOutputs
  | .node hi hj => List.forall_mem_append.mpr ⟨hi.ownsOutputs, hj.ownsOutputs⟩

theorem LoweredInputs.ownsOutputs {p : Nat} {nodes : List PlanNode} {jobs : List StageJob}
    {sides : List Side} : LoweredInputs p nodes jobs sides → ∀ job ∈ jobs, job.OwnsOutputs
  | .nil => List.forall_mem_nil _
  | .cons hf hr => List.forall_mem_append.mpr ⟨hf.ownsOutputs, hr.ownsOutputs⟩

end

theorem StageGraph.ofPlan_ownsOutputs {plan : PlanNode} {p : Nat} {scheduler scheduler' : Scheduler}
    {graph : StageGraph} (h : StageGraph.ofPlan plan p scheduler = (.ok graph, scheduler')) :
    ∀ job ∈ graph.jobs, job.OwnsOutputs := by
  obtain ⟨jobs, streams, sink, hlowered, hsink, hjobs, -⟩ := ofPlan_lowered h
  rw [hjobs]
  exact List.forall_mem_append.mpr
    ⟨hlowered.ownsOutputs, List.forall_mem_singleton.mpr hsink.ownsOutputs⟩

end StagedQuery

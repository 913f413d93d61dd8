import StagedQuery.Proofs.Plan.Running

/-!
# What a plan means

`PlanNode.evaluate` says what a plan yields, by recursion on the tree and with jobs as functions,
and without places, channels or an order: every node combines the streams of its inputs to its
own. The graph of the plan yields the same: whatever the jobs do, and in whatever order they run,
the result is the streams of the plan, one after the other (`StageGraph.run_ofPlan`).

The proof never runs anything. Once all jobs are settled, the table of nodes says which streams
their outputs carry (`NodeJobs.carries`), and the tree has the shape of the plan
(`Lowered.carries`).
-/

namespace StagedQuery

open scoped List

/-- The streams of an input of a node, and their schema. -/
structure Flow (σ : Type) where
  schema : Schema
  streams : List σ

namespace Interpretation

variable {σ : Type} (I : Interpretation σ)

/-- Some streams one after the other. -/
def concat (schema : Schema) (streams : List σ) : σ := I.perform .aggregate [] schema streams 1 0

/-- The streams of an input in one, unless they are one. -/
def gathered (input : Flow σ) : List σ :=
  if 1 < input.streams.length then [I.concat input.schema input.streams] else input.streams

/-- The streams of an input, balanced over `p` if they are one. -/
def spread (p : Nat) (input : Flow σ) : List σ :=
  if input.streams.length = 1 ∧ 1 < p then
    List.ofFn (I.perform .balance [] input.schema input.streams p)
  else input.streams

/-- Each stream of an input, shuffled into `p`. -/
def shuffled (p : Nat) (keys : List Nat) (input : Flow σ) : List (Fin p → σ) :=
  input.streams.map fun stream => I.perform (.shuffle keys) [] input.schema [stream] p

end Interpretation

namespace PlanNode

variable {σ : Type} (I : Interpretation σ) (p : Nat)

/-- The streams of a node, from those of its inputs. -/
def combine (node : PlanNode) (inputs : List (Flow σ)) : Except Error (List σ) :=
  let one (kind : JobKind) (streams : List σ) : σ :=
    I.perform kind node.payload node.schema streams 1 0
  let each (kind : JobKind) (streams : List σ) : List σ :=
    streams.map fun stream => one kind [stream]
  match node.kind, inputs with
  | .scan table, [] => return (← table.slices p).map fun slice => one slice []
  | .filter, [input] => .ok (each .filter input.streams)
  | .groupBy, [input] => .ok (each .groupBy input.streams)
  | .aggregateLocal, [input] => .ok (each .aggregateLocal input.streams)
  | .distinctLocal, [input] => .ok (each .distinctLocal input.streams)
  | .select false, [input] => .ok (each .select input.streams)
  | .select true, [input] => .ok [one .select (I.gathered input)]
  | .aggregateGlobal, [input] => .ok [one .aggregateGlobal input.streams]
  | .distinctGlobal, [input] => .ok [one .distinctGlobal input.streams]
  | .«show», [input] => .ok [one .«show» input.streams]
  | .insert, [input] => .ok [one .insert input.streams]
  | .orderBy keys, [input] =>
    .ok [one (.orderByGlobal keys) (each (.orderByLocal keys) input.streams)]
  | .limit count, [input] => .ok [one (.limit count) (each (.limit count) input.streams)]
  | .join, [left, right] =>
    let lefts := I.spread p left
    let copies := List.ofFn (I.perform .duplicate [] right.schema right.streams lefts.length)
    .ok ((lefts.zip copies).map fun pair => one (.join 1) [pair.1, pair.2])
  | .hashJoin leftKeys rightKeys, [left, right] =>
    let shuffles := I.shuffled p leftKeys left ++ I.shuffled p rightKeys right
    let kind : JobKind := .hashJoin left.streams.length leftKeys rightKeys
    .ok ((List.finRange p).map fun i => one kind (shuffles.map fun shuffle => shuffle i))
  | .union, [left, right] =>
    if left.streams.length = right.streams.length then
      .ok ((left.streams.zip right.streams).map fun pair => one .union [pair.1, pair.2])
    else .ok [one .union (left.streams ++ right.streams)]
  | _, _ => .error node.inputFault

mutual

/-- The streams of a plan. -/
def evaluate : PlanNode → Except Error (List σ)
  | ⟨kind, inputs, schema, payload⟩ => do
    combine I p ⟨kind, inputs, schema, payload⟩ (← evaluateInputs inputs)

/-- The streams of the inputs of a node. -/
def evaluateInputs : List PlanNode → Except Error (List (Flow σ))
  | [] => pure []
  | node :: nodes => do
    let streams ← evaluate node
    let flows ← evaluateInputs nodes
    pure (⟨node.schema, streams⟩ :: flows)

end

theorem evaluate_eq (node : PlanNode) :
    node.evaluate I p = evaluateInputs I p node.inputs >>= node.combine I p := by
  cases node
  rw [evaluate]

theorem combine_each {node : PlanNode} {kind : JobKind} (hk : node.kind.perStream? = some kind)
    (input : Flow σ) : node.combine I p [input] = .ok (input.streams.map fun stream =>
      I.perform kind node.payload node.schema [stream] 1 0) := by
  unfold PlanKind.perStream? at hk
  split at hk <;> cases hk <;> simp [combine, *]

theorem combine_whole {node : PlanNode} {kind : JobKind} (hk : node.kind.onWhole? = some kind)
    (input : Flow σ) : node.combine I p [input] =
      .ok [I.perform kind node.payload node.schema input.streams 1 0] := by
  unfold PlanKind.onWhole? at hk
  split at hk <;> cases hk <;> simp [combine, *]

theorem combine_phases {node : PlanNode} {first second : JobKind}
    (hk : node.kind.phases? = some (first, second)) (input : Flow σ) :
    node.combine I p [input] = .ok [I.perform second node.payload node.schema
      (input.streams.map fun stream => I.perform first node.payload node.schema [stream] 1 0)
      1 0] := by
  unfold PlanKind.phases? at hk
  split at hk <;> cases hk <;> simp [combine, *]

end PlanNode

/-! ### What settled jobs carry -/

section Carries

variable {σ : Type} {I : Interpretation σ} {store : Store σ}

theorem StageJob.Does.carries {kind : JobKind} {inputs : List Location} {n : Nat}
    {schema : Schema} {payload : Bytes} {job : StageJob}
    (h : job.Does kind inputs n schema payload) (hs : I.Settled store job) {values : List σ}
    (hv : store.Carries inputs values) :
    store.Carries job.outputs (List.ofFn (I.perform kind payload schema values n)) := by
  obtain rfl := h.length_outputs
  obtain ⟨values', hvalues', houtputs⟩ := hs
  rw [h.inputs_eq] at hvalues'
  have hsame : values' = values :=
    Option.some.inj ((Store.carries_iff.mp hvalues').symm.trans (Store.carries_iff.mp hv))
  rw [hsame, h.kind_eq, h.payload_eq, h.schema_eq] at houtputs
  have hchannels : job.outputs = (List.finRange job.outputs.length).map fun i =>
      job.location.withChannel i.val := by
    conv_lhs => rw [h.outputs_eq, ← List.map_coe_finRange_eq_range, List.map_map]
    rfl
  rw [List.ofFn_eq_map]
  conv =>
    arg 2
    rw [hchannels]
  refine List.forall₂_map_left_iff.mpr (List.forall₂_map_right_iff.mpr ?_)
  exact List.forall₂_same.mpr fun i _ => houtputs i

theorem StageJob.Does.carries_one {kind : JobKind} {inputs : List Location} {schema : Schema}
    {payload : Bytes} {job : StageJob} (h : job.Does kind inputs 1 schema payload)
    (hs : I.Settled store job) {values : List σ} (hv : store.Carries inputs values) :
    store.Carries job.outputs [I.perform kind payload schema values 1 0] := by
  simpa using h.carries hs hv

/-- Jobs that do not read from each other. -/
theorem carries_layer {α β : Type} {kind : α → JobKind} {inputs : α → List Location}
    {schema : Schema} {payload : Bytes} {as : List α} {jobs : List StageJob}
    (h : List.Forall₂ (fun a => StageJob.Does (kind a) (inputs a) 1 schema payload) as jobs)
    (hs : ∀ job ∈ jobs, I.Settled store job) {kind' : β → JobKind} {values : β → List σ}
    {bs : List β} (hv : List.Forall₂ (fun a b => kind a = kind' b ∧
      store.Carries (inputs a) (values b)) as bs) :
    store.Carries (outputsOf jobs)
      (bs.map fun b => I.perform (kind' b) payload schema (values b) 1 0) := by
  induction h generalizing bs with
  | nil =>
    cases hv
    exact .nil
  | @cons a job as jobs hj _ ih =>
    obtain ⟨hjob, hrest⟩ := List.forall_mem_cons.mp hs
    cases hv with
    | cons hb hbs =>
      have hfirst := hj.carries_one hjob hb.2
      rw [hb.1] at hfirst
      exact hfirst.append (ih hrest hbs)

/-- The streams of a side are those of a flow. -/
structure Side.Carries (store : Store σ) (side : Side) (flow : Flow σ) : Prop where
  schema_eq : side.schema = flow.schema
  streams : store.Carries side.streams flow.streams

theorem exists_flow {side : Side} {flows : List (Flow σ)}
    (h : List.Forall₂ (Side.Carries store) [side] flows) :
    ∃ flow, flows = [flow] ∧ side.Carries store flow := by
  obtain ⟨flow, _, hflow, ⟨⟩, rfl⟩ := List.forall₂_cons_left_iff.mp h
  exact ⟨flow, rfl, hflow⟩

theorem exists_flows {left right : Side} {flows : List (Flow σ)}
    (h : List.Forall₂ (Side.Carries store) [left, right] flows) :
    ∃ leftFlow rightFlow, flows = [leftFlow, rightFlow] ∧ left.Carries store leftFlow ∧
      right.Carries store rightFlow := by
  obtain ⟨leftFlow, _, hleft, hrest, rfl⟩ := List.forall₂_cons_left_iff.mp h
  obtain ⟨rightFlow, rfl, hright⟩ := exists_flow hrest
  exact ⟨leftFlow, rightFlow, rfl, hleft, hright⟩

theorem Rerouted.carries {condition : Prop} [Decidable condition] {kind : JobKind} {n : Nat}
    {side : Side} {flow : Flow σ} {jobs : List StageJob} {streams : List Location}
    (h : Rerouted condition kind n side jobs streams) (hs : ∀ job ∈ jobs, I.Settled store job)
    (hf : side.Carries store flow) :
    store.Carries streams (if condition then
      List.ofFn (I.perform kind [] flow.schema flow.streams n) else flow.streams) := by
  cases h with
  | @through job h hj =>
    rw [if_pos h, ← hf.schema_eq]
    exact hj.carries (hs job List.mem_cons_self) hf.streams
  | past h =>
    rw [if_neg h]
    exact hf.streams

theorem Gathered.carries {side : Side} {flow : Flow σ} {jobs : List StageJob}
    {streams : List Location} (h : Gathered side jobs streams)
    (hs : ∀ job ∈ jobs, I.Settled store job) (hf : side.Carries store flow) :
    store.Carries streams (I.gathered flow) := by
  have hc := Rerouted.carries h hs hf
  rw [hf.streams.length_eq] at hc
  simpa [Interpretation.gathered, Interpretation.concat] using hc

theorem Spread.carries {p : Nat} {side : Side} {flow : Flow σ} {jobs : List StageJob}
    {streams : List Location} (h : Spread p side jobs streams)
    (hs : ∀ job ∈ jobs, I.Settled store job) (hf : side.Carries store flow) :
    store.Carries streams (I.spread p flow) := by
  have hc := Rerouted.carries h hs hf
  rw [hf.streams.length_eq] at hc
  exact hc

theorem carries_each {kind : JobKind} {schema : Schema} {payload : Bytes}
    {streams : List Location} {values : List σ} {jobs : List StageJob}
    (h : List.Forall₂ (fun stream => StageJob.Does kind [stream] 1 schema payload) streams jobs)
    (hs : ∀ job ∈ jobs, I.Settled store job) (hv : store.Carries streams values) :
    store.Carries (outputsOf jobs) (values.map fun value =>
      I.perform kind payload schema [value] 1 0) :=
  carries_layer h hs (hv.imp fun _ _ hvalue => ⟨rfl, .cons hvalue .nil⟩)

theorem carries_zip {as cs : List Location} {bs ds : List σ} (h : store.Carries as bs)
    (h' : store.Carries cs ds) : List.Forall₂ (fun pair pair' =>
      store.Carries [pair.1, pair.2] [pair'.1, pair'.2]) (as.zip cs) (bs.zip ds) := by
  unfold Store.Carries at h
  induction h generalizing cs ds with
  | nil => exact .nil
  | cons hab _ ih =>
    cases h' with
    | nil => exact .nil
    | cons hcd hrest => exact .cons (.cons hab (.cons hcd .nil)) (ih hrest)

theorem carries_pairs {kind : JobKind} {schema : Schema} {payload : Bytes}
    {as cs : List Location} {bs ds : List σ} {jobs : List StageJob}
    (h : List.Forall₂ (fun pair => StageJob.Does kind [pair.1, pair.2] 1 schema payload)
      (as.zip cs) jobs)
    (hs : ∀ job ∈ jobs, I.Settled store job) (hv : store.Carries as bs)
    (hv' : store.Carries cs ds) :
    store.Carries (outputsOf jobs) ((bs.zip ds).map fun pair =>
      I.perform kind payload schema [pair.1, pair.2] 1 0) :=
  carries_layer h hs ((carries_zip hv hv').imp fun _ _ hpair => ⟨rfl, hpair⟩)

theorem carries_shuffles {p : Nat} {keys : List Nat} {schema : Schema} {streams : List Location}
    {values : List σ} {jobs : List StageJob} (h : List.Forall₂
      (fun stream => StageJob.Does (.shuffle keys) [stream] p schema []) streams jobs)
    (hs : ∀ job ∈ jobs, I.Settled store job) (hv : store.Carries streams values) :
    List.Forall₂ (fun job outputs => store.Carries job.outputs (List.ofFn outputs)) jobs
      (I.shuffled p keys ⟨schema, values⟩) := by
  induction h generalizing values with
  | nil =>
    cases hv
    exact .nil
  | cons hj _ ih =>
    obtain ⟨hjob, hrest⟩ := List.forall_mem_cons.mp hs
    cases hv with
    | cons hvalue hvalues =>
      exact .cons (hj.carries hjob (.cons hvalue .nil)) (ih hrest hvalues)

/-- Output `i` of every job. -/
theorem carries_column {p : Nat} {jobs : List StageJob} {values : List (Fin p → σ)}
    (h : List.Forall₂ (fun job outputs => store.Carries job.outputs (List.ofFn outputs))
      jobs values) (i : Fin p) :
    store.Carries (jobs.filterMap (·.outputs[i.val]?)) (values.map fun outputs => outputs i) := by
  induction h with
  | nil => exact .nil
  | @cons job outputs jobs values hj _ ih =>
    have hlength : i.val < job.outputs.length := by simp [hj.length_eq]
    have hread := List.Forall₂.get hj hlength (by simp)
    have hget : job.outputs[i.val]? = some job.outputs[i.val] := List.getElem?_eq_getElem hlength
    simp only [List.filterMap_cons, hget, List.map_cons]
    exact .cons (by simpa using hread) ih

/-- Every left stream meets a copy of the whole right side. -/
theorem carries_join {node : PlanNode} {p : Nat} {left right : Side}
    {spreading jobs : List StageJob} {streams : List Location} {copier : StageJob}
    (hspread : Spread p left spreading streams)
    (hc : copier.Does .duplicate right.streams streams.length right.schema [])
    (hj : List.Forall₂
      (fun pair => StageJob.Does (.join 1) [pair.1, pair.2] 1 node.schema node.payload)
      (streams.zip copier.outputs) jobs)
    (hs : ∀ job ∈ spreading ++ ([copier] ++ jobs), I.Settled store job)
    {leftFlow rightFlow : Flow σ} (hleft : left.Carries store leftFlow)
    (hright : right.Carries store rightFlow) :
    let lefts := I.spread p leftFlow
    let copies :=
      List.ofFn (I.perform .duplicate [] rightFlow.schema rightFlow.streams lefts.length)
    store.Carries (outputsOf jobs) ((lefts.zip copies).map fun pair =>
      I.perform (.join 1) node.payload node.schema [pair.1, pair.2] 1 0) := by
  intro lefts copies
  obtain ⟨hspreading, hrest⟩ := List.forall_mem_append.mp hs
  obtain ⟨hcopier, hjobs⟩ := List.forall_mem_append.mp hrest
  have hlefts := Spread.carries hspread hspreading hleft
  have hcopies := hc.carries (hcopier copier List.mem_cons_self) hright.streams
  rw [hright.schema_eq, hlefts.length_eq] at hcopies
  exact carries_pairs hj hjobs hlefts hcopies

/-- Instance `i` has output `i` of every shuffle. -/
theorem carries_hashJoin {node : PlanNode} {p : Nat} {leftKeys rightKeys : List Nat}
    {left right : Side} {lefts rights jobs : List StageJob}
    (hl : List.Forall₂
      (fun stream => StageJob.Does (.shuffle leftKeys) [stream] p left.schema [])
      left.streams lefts)
    (hr : List.Forall₂
      (fun stream => StageJob.Does (.shuffle rightKeys) [stream] p right.schema [])
      right.streams rights)
    (hj : List.Forall₂ (fun i => StageJob.Does (.hashJoin lefts.length leftKeys rightKeys)
      ((lefts ++ rights).filterMap (·.outputs[i]?)) 1 node.schema node.payload)
      (List.range p) jobs)
    (hs : ∀ job ∈ lefts ++ (rights ++ jobs), I.Settled store job)
    {leftFlow rightFlow : Flow σ} (hleft : left.Carries store leftFlow)
    (hright : right.Carries store rightFlow) :
    let shuffles := I.shuffled p leftKeys leftFlow ++ I.shuffled p rightKeys rightFlow
    store.Carries (outputsOf jobs) ((List.finRange p).map fun i =>
      I.perform (.hashJoin leftFlow.streams.length leftKeys rightKeys) node.payload node.schema
        (shuffles.map fun shuffle => shuffle i) 1 0) := by
  intro shuffles
  obtain ⟨hlefts, hrest⟩ := List.forall_mem_append.mp hs
  obtain ⟨hrights, hjobs⟩ := List.forall_mem_append.mp hrest
  have hshuffles := List.rel_append (carries_shuffles hl hlefts hleft.streams)
    (carries_shuffles hr hrights hright.streams)
  rw [hleft.schema_eq, hright.schema_eq] at hshuffles
  have hcount : lefts.length = leftFlow.streams.length :=
    hl.length_eq.symm.trans hleft.streams.length_eq
  rw [hcount, ← List.map_coe_finRange_eq_range] at hj
  refine carries_layer hj hjobs (List.forall₂_map_left_iff.mpr (List.forall₂_same.mpr ?_))
  intro i _
  exact ⟨rfl, carries_column hshuffles i⟩

/-- Once its jobs are settled, the streams of a node are those that it makes of its inputs. -/
theorem NodeJobs.carries {node : PlanNode} {p : Nat} {sides : List Side} {jobs : List StageJob}
    {streams : List Location} (h : NodeJobs node p sides jobs streams)
    (hs : ∀ job ∈ jobs, I.Settled store job) {flows : List (Flow σ)}
    (hf : List.Forall₂ (Side.Carries store) sides flows) :
    ∃ values, node.combine I p flows = .ok values ∧ store.Carries streams values := by
  cases h with
  | @scan table kinds jobs hk hslices hj =>
    cases hf
    refine ⟨kinds.map fun slice => I.perform slice node.payload node.schema [] 1 0, ?_, ?_⟩
    · simp [PlanNode.combine, hk, hslices]
    · exact carries_layer hj hs (List.forall₂_same.mpr fun slice _ => ⟨rfl, .nil⟩)
  | @each kind side jobs hk hj =>
    obtain ⟨flow, rfl, hflow⟩ := exists_flow hf
    exact ⟨_, PlanNode.combine_each I p hk flow, carries_each hj hs hflow.streams⟩
  | @whole kind side job hk hj =>
    obtain ⟨flow, rfl, hflow⟩ := exists_flow hf
    exact ⟨_, PlanNode.combine_whole I p hk flow,
      hj.carries_one (hs job List.mem_cons_self) hflow.streams⟩
  | @distinct side gathering streams job hk hg hj =>
    obtain ⟨flow, rfl, hflow⟩ := exists_flow hf
    obtain ⟨hgathering, hjob⟩ := List.forall_mem_append.mp hs
    have hgathered := Gathered.carries hg hgathering hflow
    refine ⟨_, ?_, hj.carries_one (hjob job List.mem_cons_self) hgathered⟩
    simp [PlanNode.combine, hk]
  | @phases first second side jobs job hk hj hl =>
    obtain ⟨flow, rfl, hflow⟩ := exists_flow hf
    obtain ⟨hjobs, hjob⟩ := List.forall_mem_append.mp hs
    have hfirst := carries_each hj hjobs hflow.streams
    exact ⟨_, PlanNode.combine_phases I p hk flow,
      hl.carries_one (hjob job List.mem_cons_self) hfirst⟩
  | @join left right spreading jobs streams copier hk hspread hc hj =>
    obtain ⟨leftFlow, rightFlow, rfl, hleft, hright⟩ := exists_flows hf
    refine ⟨_, ?_, carries_join hspread hc hj hs hleft hright⟩
    simp only [PlanNode.combine, hk]
  | @hashJoin leftKeys rightKeys left right lefts rights jobs hk hl hr hj =>
    obtain ⟨leftFlow, rightFlow, rfl, hleft, hright⟩ := exists_flows hf
    refine ⟨_, ?_, carries_hashJoin hl hr hj hs hleft hright⟩
    simp only [PlanNode.combine, hk]
  | @pairwise left right jobs hk hn hj =>
    obtain ⟨leftFlow, rightFlow, rfl, hleft, hright⟩ := exists_flows hf
    rw [hleft.streams.length_eq, hright.streams.length_eq] at hn
    refine ⟨_, ?_, carries_pairs hj hs hleft.streams hright.streams⟩
    simp only [PlanNode.combine, hk, if_pos hn]
  | @merged left right job hk hn hj =>
    obtain ⟨leftFlow, rightFlow, rfl, hleft, hright⟩ := exists_flows hf
    rw [hleft.streams.length_eq, hright.streams.length_eq] at hn
    refine ⟨_, ?_, hj.carries_one (hs job List.mem_cons_self)
      (hleft.streams.append hright.streams)⟩
    simp only [PlanNode.combine, hk, if_neg hn]

mutual

/-- Once its jobs are settled, the streams of a tree are those of the plan. -/
theorem Lowered.carries {p : Nat} {node : PlanNode} {jobs : List StageJob}
    {streams : List Location} : Lowered p node jobs streams →
      (∀ job ∈ jobs, I.Settled store job) →
      ∃ values, node.evaluate I p = .ok values ∧ store.Carries streams values
  | .node hi hj, hs => by
    obtain ⟨hbelow, hjobs⟩ := List.forall_mem_append.mp hs
    obtain ⟨flows, hflows, hsides⟩ := hi.carries hbelow
    obtain ⟨values, hvalues, hstreams⟩ := hj.carries hjobs hsides
    refine ⟨values, ?_, hstreams⟩
    rw [PlanNode.evaluate_eq, hflows]
    exact hvalues

theorem LoweredInputs.carries {p : Nat} {nodes : List PlanNode} {jobs : List StageJob}
    {sides : List Side} : LoweredInputs p nodes jobs sides →
      (∀ job ∈ jobs, I.Settled store job) →
      ∃ flows, PlanNode.evaluateInputs I p nodes = .ok flows ∧
        List.Forall₂ (Side.Carries store) sides flows
  | .nil, _ => ⟨[], rfl, .nil⟩
  | .cons hf hr, hs => by
    obtain ⟨hfirst, hrest⟩ := List.forall_mem_append.mp hs
    obtain ⟨values, hvalues, hstreams⟩ := hf.carries hfirst
    obtain ⟨flows, hflows, hsides⟩ := hr.carries hrest
    refine ⟨⟨_, values⟩ :: flows, ?_, .cons ⟨rfl, hstreams⟩ hsides⟩
    rw [PlanNode.evaluateInputs, hvalues, hflows]
    rfl

end

end Carries

/-! ### Whole graphs -/

namespace StageGraph

/-- An order of the jobs of a graph in which no job comes before one that it reads from. -/
structure Schedule (graph : StageGraph) (order : List StageJob) : Prop where
  perm : order ~ graph.jobs
  sorted : order.Pairwise fun earlier later => ¬ earlier.Reads later

section Wired

variable {graph : StageGraph} {rest : List Location} (hw : Wiring [] graph.jobs rest)
  (hn : (graph.jobs.map (·.location.name)).Nodup)

include hw hn

/-- A job reads from jobs before it, also when it names no more than their executors. -/
theorem lt_of_reads {i k : Nat} {job source : StageJob} (hi : graph.jobs[i]? = some job)
    (hk : graph.jobs[k]? = some source) (hr : job.Reads source) : k < i := by
  obtain ⟨input, hin, hname⟩ := hr
  obtain ⟨j, hj, maker, hmaker, hout⟩ := hw.source_before hi hin
  have hmade := StageJob.name_of_mem_outputs (hw.valid maker (List.mem_of_getElem? hmaker)) hout
  have hsame : (graph.jobs.map (·.location.name))[j]? = (graph.jobs.map (·.location.name))[k]? := by
    simp only [List.getElem?_map, hmaker, hk, Option.map_some]
    rw [← hmade, hname]
  have hjlt : j < (graph.jobs.map (·.location.name)).length := by
    simpa using (List.getElem?_eq_some_iff.mp hmaker).1
  rwa [← (List.getElem?_inj hjlt hn).mp hsame]

/-- The jobs of a graph are listed in an order in which they can run. -/
theorem schedule_jobs : graph.Schedule graph.jobs where
  perm := .refl _
  sorted := by
    refine List.pairwise_iff_getElem.mpr ?_
    intro i j hi hj hij hr
    have hlt := lt_of_reads hw hn (List.getElem?_eq_getElem hi) (List.getElem?_eq_getElem hj) hr
    omega

theorem Schedule.runnable {order : List StageJob} (h : graph.Schedule order) : Runnable order where
  valid := fun job hjob => hw.valid job (h.perm.mem_iff.mp hjob)
  names := (h.perm.map _).nodup_iff.mpr hn
  source := by
    intro job hjob input hin
    obtain ⟨i, hi⟩ := List.mem_iff_getElem?.mp (h.perm.mem_iff.mp hjob)
    obtain ⟨j, -, source, hsource, hout⟩ := hw.source_before hi hin
    exact ⟨source, h.perm.mem_iff.mpr (List.mem_of_getElem? hsource), hout⟩
  not_self := by
    intro job hjob hr
    obtain ⟨i, hi⟩ := List.mem_iff_getElem?.mp (h.perm.mem_iff.mp hjob)
    exact absurd (lt_of_reads hw hn hi hi hr) (Nat.lt_irrefl i)
  sorted := h.sorted

end Wired

/-- Whatever the jobs do and in whatever order they run, the output of the sink is the streams of
the plan, one after the other. -/
theorem run_ofPlan {plan : PlanNode} {p : Nat} {scheduler scheduler' : Scheduler}
    {graph : StageGraph} (h : ofPlan plan p scheduler = (.ok graph, scheduler'))
    (hn : (graph.jobs.map (·.location.name)).Nodup) {σ : Type} (I : Interpretation σ)
    {order : List StageJob} (ho : graph.Schedule order) :
    ∃ store streams, I.run order = some store ∧ plan.evaluate I p = .ok streams ∧
      graph.sinkOutput?.bind store.read = some (I.concat plan.schema streams) := by
  obtain ⟨jobs, locations, sink, hlowered, hsink, hjobs, hindex⟩ := ofPlan_lowered h
  have hwiring : Wiring [] graph.jobs sink.outputs := by
    rw [hjobs]
    exact hlowered.wiring.append (.single hsink)
  obtain ⟨store, hrun, hsettled⟩ := Interpretation.run_settled (I := I) (ho.runnable hwiring hn)
  have hall : ∀ job ∈ jobs ++ [sink], I.Settled store job := by
    intro job hjob
    rw [← hjobs] at hjob
    exact hsettled job (ho.perm.mem_iff.mpr hjob)
  obtain ⟨hbelow, hlast⟩ := List.forall_mem_append.mp hall
  obtain ⟨streams, hstreams, hcarries⟩ := hlowered.carries hbelow
  have hout := hsink.carries_one (hlast sink List.mem_cons_self) hcarries
  refine ⟨store, streams, hrun, hstreams, ?_⟩
  have houtputs : sink.outputs = [sink.location.withChannel 0] := hsink.outputs_eq
  have hsinkOutput : graph.sinkOutput? = some (sink.location.withChannel 0) := by
    simp [sinkOutput?, sinkJob?, hjobs, hindex, houtputs]
  rw [houtputs] at hout
  rw [hsinkOutput]
  exact (List.forall₂_cons.mp hout).1

end StageGraph

/-- Jobs on rows that are texts: a table holds the names of its files, a join puts rows together,
and the last character of a row is its key. -/
def Interpretation.onTexts : Interpretation (List String) where
  perform kind _ _ inputs n i :=
    let key (row : String) : Option Char := row.toList.getLast?
    let pairs (left : Nat) : List (String × String) :=
      (inputs.take left).flatten.product (inputs.drop left).flatten
    match kind with
    | .scan table _ files => files.map fun file => table ++ file
    | .limit count => inputs.flatten.take count
    | .balance => everyNth n i inputs.flatten
    | .shuffle _ => inputs.flatten.filter fun row => (key row).any fun c => c.toNat % n = i
    | .join left => (pairs left).map fun (l, r) => l ++ r
    | .hashJoin left _ _ =>
      ((pairs left).filter fun (l, r) => key l = key r).map fun (l, r) => l ++ r
    | _ => inputs.flatten

/-- All scans may run first. -/
theorem StageGraph.run_ofPlan_unevenJoin :
    ∃ graph scheduler store, StageGraph.ofPlan .unevenJoin 2 .twoWorkers = (.ok graph, scheduler) ∧
      Interpretation.onTexts.run (graph.jobs.filter (·.inputs.isEmpty) ++
        graph.jobs.filter (!·.inputs.isEmpty)) = some store ∧
      graph.sinkOutput?.bind store.read = some ["a0b0c0", "a0b1c1", "a1b0c0", "a1b1c1"] := by
  let scansFirst (graph : StageGraph) : List StageJob :=
    graph.jobs.filter (·.inputs.isEmpty) ++ graph.jobs.filter (!·.inputs.isEmpty)
  have hgraph : (StageGraph.ofPlan .unevenJoin 2 .twoWorkers).1.toOption.any (fun graph =>
      (graph.jobs.map (·.location.name)).Nodup ∧ (scansFirst graph).Pairwise fun earlier later =>
        ¬ ∃ input ∈ earlier.inputs, input.name = later.location.name) = true := by
    decide +kernel
  rcases h : StageGraph.ofPlan .unevenJoin 2 .twoWorkers with ⟨_ | graph, scheduler⟩
  · rw [h] at hgraph
    cases hgraph
  · rw [h] at hgraph
    obtain ⟨hnames, hsorted⟩ := of_decide_eq_true hgraph
    obtain ⟨store, streams, hrun, hstreams, hout⟩ :=
      run_ofPlan h hnames Interpretation.onTexts ⟨List.filter_append_perm _ _, hsorted⟩
    cases hstreams
    exact ⟨graph, scheduler, store, rfl, hrun, hout⟩

end StagedQuery

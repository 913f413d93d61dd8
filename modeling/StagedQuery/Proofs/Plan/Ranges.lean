import StagedQuery.Proofs.Codec.Jobs
import StagedQuery.Proofs.Plan.Wiring

/-!
# The numbers of planned jobs

A plan that was read from a text has no number beyond 64 bits (`PlanNode.in64_of_decoded`). The jobs
of its graph take their parameters from the plan, and what else is counted in them is counted up to
the parallelism at most: a node never has more streams than that (`Lowered.fitsWidth`), so neither
has a job more outputs. With a parallelism of 64 bits, all numbers of the jobs have 64 bits
(`StageGraph.ofPlan_in64`).
-/

namespace StagedQuery

/-! ### What was decoded -/

namespace Json

variable {α : Type} {item : Decoder α} {scope : Scope} {json : Json}

theorem lt_of_natural {n : Nat} (h : natural scope json = some n) : n < UInt64.size := by
  cases json with
  | integer m =>
    obtain ⟨k, hk, rfl⟩ := Option.map_eq_some_iff.mp h
    obtain ⟨hbounds, hk⟩ := Option.ite_none_right_eq_some.mp hk
    cases hk
    rw [UInt64.size]
    omega
  | null | bool | float | single | string | array | object | unreadable => cases h

theorem mem_of_mapM {β : Type} {f : β → Option α} {bs : List β} {as : List α}
    (h : bs.mapM f = some as) {a : α} (ha : a ∈ as) : ∃ b ∈ bs, f b = some a := by
  induction bs generalizing as with
  | nil =>
    cases h
    cases ha
  | cons b bs ih =>
    rw [List.mapM_cons] at h
    obtain ⟨first, hfirst, h⟩ := Option.bind_eq_some_iff.mp h
    obtain ⟨rest, hrest, h⟩ := Option.bind_eq_some_iff.mp h
    cases h
    rcases List.mem_cons.mp ha with rfl | ha
    · exact ⟨b, List.mem_cons_self, hfirst⟩
    · obtain ⟨b', hb', hf⟩ := ih hrest ha
      exact ⟨b', List.mem_cons_of_mem _ hb', hf⟩

/-- Every item of a list was decoded. -/
theorem mem_of_list {as : List α} (h : list item scope json = some as) {a : α} (ha : a ∈ as) :
    ∃ inner content, item inner content = some a := by
  cases json with
  | array items =>
    obtain ⟨inner, -, h⟩ := Option.bind_eq_some_iff.mp h
    obtain ⟨content, -, hcontent⟩ := mem_of_mapM h ha
    exact ⟨inner, content, hcontent⟩
  | null | bool | integer | float | single | string | object | unreadable => cases h

/-- A field that must be given was decoded. -/
theorem exists_of_field {fields : List (Option Json)} {i : Nat} {a : α}
    (h : field item scope fields i = some a) : ∃ content, item scope content = some a := by
  obtain ⟨given, -, h⟩ := Option.bind_eq_some_iff.mp h
  obtain ⟨content, -, h⟩ := Option.bind_eq_some_iff.mp h
  exact ⟨content, h⟩

theorem lt_of_field_natural {fields : List (Option Json)} {i n : Nat}
    (h : field natural scope fields i = some n) : n < UInt64.size := by
  obtain ⟨content, h⟩ := exists_of_field h
  exact lt_of_natural h

theorem lt_of_field_columns {fields : List (Option Json)} {i : Nat} {columns : List Nat}
    (h : field (list natural) scope fields i = some columns) : ∀ n ∈ columns, n < UInt64.size := by
  intro n hn
  obtain ⟨content, h⟩ := exists_of_field h
  obtain ⟨inner, column, h⟩ := mem_of_list h hn
  exact lt_of_natural h

end Json

theorem SortKey.in64_of_decoded {scope : Json.Scope} {json : Json} {k : SortKey}
    (h : decoder scope json = some k) : k.In64 := by
  obtain ⟨fields, -, h⟩ := Option.bind_eq_some_iff.mp h
  obtain ⟨inner, -, h⟩ := Option.bind_eq_some_iff.mp h
  obtain ⟨column, hcolumn, h⟩ := Option.bind_eq_some_iff.mp h
  obtain ⟨ascending, -, h⟩ := Option.bind_eq_some_iff.mp h
  cases h
  exact Json.lt_of_field_natural hcolumn

/-- The numbers among the parameters have 64 bits. -/
def PlanKind.In64 : PlanKind → Prop
  | orderBy keys => ∀ k ∈ keys, k.In64
  | hashJoin leftKeys rightKeys => (∀ n ∈ leftKeys, n < UInt64.size) ∧ ∀ n ∈ rightKeys, n < UInt64.size
  | limit count => count < UInt64.size
  | _ => True

theorem PlanKind.in64_of_plain {k : PlanKind} (h : k ∈ plain) : k.In64 := by
  simp only [plain, List.mem_cons, List.not_mem_nil, or_false] at h
  rcases h with rfl | rfl | rfl | rfl | rfl | rfl | rfl | rfl | rfl | rfl <;> trivial

theorem PlanKind.in64_of_decoded {scope : Json.Scope} {json : Json} {k : PlanKind}
    (h : decoder scope json = some k) : k.In64 := by
  obtain ⟨⟨tag, scope, json⟩, -, h⟩ := Option.bind_eq_some_iff.mp h
  simp only [ofParameters] at h
  split at h
  case h_1 =>
    obtain ⟨table, -, rfl⟩ := Option.map_eq_some_iff.mp h
    trivial
  case h_2 =>
    obtain ⟨fields, -, h⟩ := Option.bind_eq_some_iff.mp h
    obtain ⟨distinct, -, rfl⟩ := Option.map_eq_some_iff.mp h
    trivial
  case h_3 =>
    obtain ⟨fields, -, h⟩ := Option.bind_eq_some_iff.mp h
    obtain ⟨keys, hkeys, rfl⟩ := Option.map_eq_some_iff.mp h
    intro key hkey
    obtain ⟨content, hkeys⟩ := Json.exists_of_field hkeys
    obtain ⟨inner, content, hdecoded⟩ := Json.mem_of_list hkeys hkey
    exact SortKey.in64_of_decoded hdecoded
  case h_4 =>
    obtain ⟨fields, -, h⟩ := Option.bind_eq_some_iff.mp h
    obtain ⟨leftKeys, hleft, h⟩ := Option.bind_eq_some_iff.mp h
    obtain ⟨rightKeys, hright, h⟩ := Option.bind_eq_some_iff.mp h
    cases h
    exact ⟨Json.lt_of_field_columns hleft, Json.lt_of_field_columns hright⟩
  case h_5 =>
    obtain ⟨fields, -, h⟩ := Option.bind_eq_some_iff.mp h
    obtain ⟨count, hcount, rfl⟩ := Option.map_eq_some_iff.mp h
    exact Json.lt_of_field_natural hcount
  case h_6 =>
    obtain ⟨-, h⟩ := Option.ite_none_right_eq_some.mp h
    exact in64_of_plain (List.mem_of_find?_eq_some h)

namespace PlanNode

/-- The numbers of every node have 64 bits. -/
def In64 (plan : PlanNode) : Prop := ∀ node : PlanNode, node.Occurs plan → node.kind.In64

theorem decodeWithin_eq_some {depth : Nat} {json : Json} {plan : PlanNode}
    (h : decodeWithin depth json = some plan) :
    plan.kind.In64 ∧ ∀ input ∈ plan.inputs, ∃ below content,
      decodeWithin below content = some input := by
  cases depth with
  | zero => cases h
  | succ depth =>
  cases depth with
  | zero => cases h
  | succ depth =>
    rw [decodeWithin] at h
    obtain ⟨fields, -, h⟩ := Option.bind_eq_some_iff.mp h
    obtain ⟨kind, hkind, h⟩ := Option.bind_eq_some_iff.mp h
    obtain ⟨content, hkind⟩ := Json.exists_of_field hkind
    have hkind := PlanKind.in64_of_decoded hkind
    -- The three ways to give the inputs end alike, with the schema and the payload.
    split at h
    case h_1 items _ =>
      split at h
      · cases h
      · obtain ⟨inputs, hinputs, h⟩ := Option.bind_eq_some_iff.mp h
        obtain ⟨schema, -, h⟩ := Option.bind_eq_some_iff.mp h
        obtain ⟨payload, -, h⟩ := Option.bind_eq_some_iff.mp h
        cases h
        refine ⟨hkind, fun input hinput => ?_⟩
        obtain ⟨content, -, hdecoded⟩ := Json.mem_of_mapM hinputs hinput
        exact ⟨depth, content, hdecoded⟩
    case h_2 => cases h
    case h_3 =>
      obtain ⟨inputs, hinputs, h⟩ := Option.bind_eq_some_iff.mp h
      cases hinputs
      obtain ⟨schema, -, h⟩ := Option.bind_eq_some_iff.mp h
      obtain ⟨payload, -, h⟩ := Option.bind_eq_some_iff.mp h
      cases h
      exact ⟨hkind, nofun⟩

/-- A plan that was read has only numbers of 64 bits. -/
theorem in64_of_decoded {text : Bytes} {plan : PlanNode}
    (h : Json.decodeBytes decoder text = some plan) : plan.In64 := by
  obtain ⟨json, -, h⟩ := Option.bind_eq_some_iff.mp h
  have hall {plan node : PlanNode} (hoccurs : node.Occurs plan) :
      ∀ {depth : Nat} {json : Json}, decodeWithin depth json = some plan → node.kind.In64 := by
    induction hoccurs with
    | root => exact fun h => (decodeWithin_eq_some h).1
    | under hinput _ ih =>
      intro depth json h
      obtain ⟨below, content, hdecoded⟩ := (decodeWithin_eq_some h).2 _ hinput
      exact ih hdecoded
  exact fun node hoccurs => hall hoccurs h

end PlanNode

/-! ### What was lowered -/

/-- The parameters of a job have 64 bits, and it has at most `p` outputs. -/
structure StageJob.FitsWidth (p : Nat) (job : StageJob) : Prop where
  kind : job.kind.In64
  outputs : job.outputs.length ≤ p

section Lowered

variable {p : Nat}

theorem StageJob.Does.fitsWidth {kind : JobKind} {inputs : List Location} {n : Nat}
    {schema : Schema} {payload : Bytes} {job : StageJob} (h : job.Does kind inputs n schema payload)
    (hkind : kind.In64) (hn : n ≤ p) : job.FitsWidth p :=
  ⟨h.kind_eq ▸ hkind, Nat.le_trans (Nat.le_of_eq h.length_outputs) hn⟩

theorem fitsWidth_of_layer {α : Type} {kind : α → JobKind} {inputs : α → List Location} {n : Nat}
    {schema : Schema} {payload : Bytes} {as : List α} {jobs : List StageJob}
    (h : List.Forall₂ (fun a => StageJob.Does (kind a) (inputs a) n schema payload) as jobs)
    (hkind : ∀ a ∈ as, (kind a).In64) (hn : n ≤ p) : ∀ job ∈ jobs, job.FitsWidth p := by
  induction h with
  | nil => exact nofun
  | cons hj _ ih =>
    obtain ⟨ha, has⟩ := List.forall_mem_cons.mp hkind
    exact List.forall_mem_cons.mpr ⟨hj.fitsWidth ha hn, ih has⟩

/-- A layer of jobs with one output each has as many streams as jobs. -/
theorem length_streams_of_layer {α : Type} {kind : α → JobKind} {inputs : α → List Location}
    {schema : Schema} {payload : Bytes} {as : List α} {jobs : List StageJob}
    (h : List.Forall₂ (fun a => StageJob.Does (kind a) (inputs a) 1 schema payload) as jobs) :
    (outputsOf jobs).length = as.length := by
  induction h with
  | nil => rfl
  | cons hj _ ih =>
    rw [outputsOf_cons, List.length_append, hj.length_outputs, ih, List.length_cons, Nat.add_comm]

theorem PlanKind.in64_perStream? {k : PlanKind} {kind : JobKind} (h : k.perStream? = some kind) :
    kind.In64 := by
  unfold perStream? at h
  split at h <;> cases h <;> trivial

theorem PlanKind.in64_onWhole? {k : PlanKind} {kind : JobKind} (h : k.onWhole? = some kind) :
    kind.In64 := by
  unfold onWhole? at h
  split at h <;> cases h <;> trivial

theorem PlanKind.in64_phases? {k : PlanKind} {first second : JobKind}
    (h : k.phases? = some (first, second)) (hk : k.In64) : first.In64 ∧ second.In64 := by
  unfold phases? at h
  split at h <;> cases h <;> exact ⟨hk, hk⟩

variable {node : PlanNode} {sides : List Side} {jobs : List StageJob} {streams : List Location}

theorem Rerouted.fitsWidth {condition : Prop} {kind : JobKind} {n : Nat} {side : Side}
    (h : Rerouted condition kind n side jobs streams) (hkind : kind.In64) (hn : n ≤ p)
    (hside : side.streams.length ≤ p) :
    streams.length ≤ p ∧ ∀ job ∈ jobs, job.FitsWidth p := by
  cases h with
  | through _ hj =>
    exact ⟨Nat.le_trans (Nat.le_of_eq hj.length_outputs) hn,
      List.forall_mem_singleton.mpr (hj.fitsWidth hkind hn)⟩
  | past _ => exact ⟨hside, nofun⟩

/-- If the sides have at most `p` streams, so has the node, and its jobs have as many outputs at
most. -/
theorem NodeJobs.fitsWidth (h : NodeJobs node p sides jobs streams) (hp : 0 < p)
    (hwide : p < UInt64.size) (hnode : node.kind.In64)
    (hsides : ∀ side ∈ sides, side.streams.length ≤ p) :
    streams.length ≤ p ∧ ∀ job ∈ jobs, job.FitsWidth p := by
  cases h with
  | @scan table kinds jobs hk hs hj =>
    obtain ⟨hlength, hscans⟩ := TableScan.slices_eq_ok hs
    have hkinds : ∀ kind ∈ kinds, kind.In64 := by
      intro kind hkind
      obtain ⟨name, partitions, files, rfl⟩ := hscans kind hkind
      trivial
    have hwidth := (length_streams_of_layer hj).trans hlength
    exact ⟨Nat.le_of_eq hwidth, fitsWidth_of_layer hj hkinds hp⟩
  | each hk hj =>
    have hside := hsides _ List.mem_cons_self
    exact ⟨Nat.le_trans (Nat.le_of_eq (length_streams_of_layer hj)) hside,
      fitsWidth_of_layer hj (fun _ _ => PlanKind.in64_perStream? hk) hp⟩
  | whole hk hj =>
    have hfits := hj.fitsWidth (PlanKind.in64_onWhole? hk) hp
    exact ⟨hfits.outputs, List.forall_mem_singleton.mpr hfits⟩
  | distinct hk hg hj =>
    have hfits := hj.fitsWidth (p := p) trivial hp
    have hgathered := hg.fitsWidth (p := p) trivial hp (hsides _ List.mem_cons_self)
    exact ⟨hfits.outputs,
      List.forall_mem_append.mpr ⟨hgathered.2, List.forall_mem_singleton.mpr hfits⟩⟩
  | phases hk hj hl =>
    obtain ⟨hfirst, hsecond⟩ := PlanKind.in64_phases? hk hnode
    have hfits := hl.fitsWidth hsecond hp
    exact ⟨hfits.outputs, List.forall_mem_append.mpr
      ⟨fitsWidth_of_layer hj (fun _ _ => hfirst) hp, List.forall_mem_singleton.mpr hfits⟩⟩
  | join hk hs hc hj =>
    obtain ⟨hstreams, hspread⟩ := hs.fitsWidth (p := p) trivial (Nat.le_refl p)
      (hsides _ List.mem_cons_self)
    have hjoins := fitsWidth_of_layer (p := p) hj
      (fun _ _ => (by decide : (1 : Nat) < UInt64.size)) hp
    refine ⟨?_, List.forall_mem_append.mpr ⟨hspread, List.forall_mem_append.mpr
      ⟨List.forall_mem_singleton.mpr (hc.fitsWidth trivial hstreams), hjoins⟩⟩⟩
    rw [length_streams_of_layer hj, List.length_zip]
    exact Nat.le_trans (Nat.min_le_left _ _) hstreams
  | @hashJoin leftKeys rightKeys left right lefts rights jobs hk hl hr hj =>
    rw [hk] at hnode
    have hlength : lefts.length < UInt64.size := by
      rw [← hl.length_eq]
      exact Nat.lt_of_le_of_lt (hsides left List.mem_cons_self) hwide
    have hlefts := fitsWidth_of_layer hl (fun _ _ => hnode.1) (Nat.le_refl p)
    have hrights := fitsWidth_of_layer hr (fun _ _ => hnode.2) (Nat.le_refl p)
    have hjoins := fitsWidth_of_layer (p := p) hj (fun _ _ => ⟨hlength, hnode⟩) hp
    refine ⟨?_, List.forall_mem_append.mpr ⟨hlefts, List.forall_mem_append.mpr ⟨hrights, hjoins⟩⟩⟩
    exact Nat.le_of_eq ((length_streams_of_layer hj).trans List.length_range)
  | pairwise hk hn hj =>
    refine ⟨?_, fitsWidth_of_layer hj (fun _ _ => trivial) hp⟩
    rw [length_streams_of_layer hj, List.length_zip]
    exact Nat.le_trans (Nat.min_le_left _ _) (hsides _ List.mem_cons_self)
  | merged hk hn hj =>
    have hfits := hj.fitsWidth (p := p) trivial hp
    exact ⟨hfits.outputs, List.forall_mem_singleton.mpr hfits⟩

theorem PlanNode.In64.input (h : node.In64) {input : PlanNode} (hi : input ∈ node.inputs) :
    input.In64 := fun inner hoccurs => h inner (.under hi hoccurs)

mutual

/-- No node of a tree has more streams than the query is parallel. -/
theorem Lowered.fitsWidth (hp : 0 < p) (hwide : p < UInt64.size) {node : PlanNode}
    {jobs : List StageJob} {streams : List Location} :
    Lowered p node jobs streams → node.In64 →
      streams.length ≤ p ∧ ∀ job ∈ jobs, job.FitsWidth p
  | .node hi hj, hnode => by
    obtain ⟨hsides, hbelow⟩ := hi.fitsWidth hp hwide fun input hinput => hnode.input hinput
    obtain ⟨hstreams, hjobs⟩ := hj.fitsWidth hp hwide (hnode _ .root) hsides
    exact ⟨hstreams, List.forall_mem_append.mpr ⟨hbelow, hjobs⟩⟩

theorem LoweredInputs.fitsWidth (hp : 0 < p) (hwide : p < UInt64.size) {nodes : List PlanNode}
    {jobs : List StageJob} {sides : List Side} :
    LoweredInputs p nodes jobs sides → (∀ node ∈ nodes, node.In64) →
      (∀ side ∈ sides, side.streams.length ≤ p) ∧ ∀ job ∈ jobs, job.FitsWidth p
  | .nil, _ => ⟨nofun, nofun⟩
  | .cons hf hr, hnodes => by
    obtain ⟨hnode, hnodes⟩ := List.forall_mem_cons.mp hnodes
    obtain ⟨hstreams, hfirst⟩ := hf.fitsWidth hp hwide hnode
    obtain ⟨hsides, hrest⟩ := hr.fitsWidth hp hwide hnodes
    exact ⟨List.forall_mem_cons.mpr ⟨hstreams, hsides⟩,
      List.forall_mem_append.mpr ⟨hfirst, hrest⟩⟩

end

end Lowered

/-- The numbers of every job of a graph have 64 bits, if those of the plan and the parallelism
have. -/
theorem StageGraph.ofPlan_in64 {plan : PlanNode} (hplan : plan.In64) {p : Nat} (hwide : p < UInt64.size)
    {scheduler scheduler' : Scheduler} {graph : StageGraph}
    (h : StageGraph.ofPlan plan p scheduler = (.ok graph, scheduler')) :
    ∀ job ∈ graph.jobs, job.In64 := by
  obtain ⟨⟨jobs, streams, sink, hlowered, hsink, hjobs, -⟩, hchannel⟩ := ofPlan_placed h
  have hp := ofPlan_pos h
  have hwiring : Wiring [] graph.jobs sink.outputs := by
    rw [hjobs]
    exact hlowered.wiring.append (.single hsink)
  have hfits : ∀ job ∈ graph.jobs, job.FitsWidth p := by
    rw [hjobs]
    exact List.forall_mem_append.mpr ⟨(hlowered.fitsWidth hp hwide hplan).2,
      List.forall_mem_singleton.mpr (hsink.fitsWidth trivial hp)⟩
  have houtputs : ∀ job ∈ graph.jobs, ∀ output ∈ job.outputs, output.In64 := by
    intro job hjob output houtput
    have hlt := StageJob.channel_lt (hwiring.valid job hjob) houtput
    exact Nat.lt_trans (Nat.lt_of_lt_of_le hlt (hfits job hjob).outputs) hwide
  intro job hjob
  refine ⟨?_, (hfits job hjob).kind, fun input hinput => ?_, houtputs job hjob⟩
  · rw [Location.In64, hchannel job hjob]
    exact Nat.two_pow_pos 64
  · obtain ⟨i, hi⟩ := List.mem_iff_getElem?.mp hjob
    obtain ⟨j, -, source, hsource, houtput⟩ := hwiring.source_before hi hinput
    exact houtputs source (List.mem_of_getElem? hsource) input houtput

end StagedQuery

import Mathlib.Data.List.ProdSigma
import StagedQuery.Proofs.Cluster.Movement
import StagedQuery.Proofs.Value

/-!
# What joins get to see

A join is lowered to several jobs, and each of them sees only some rows of either side. It is right
to put the results together only if every pair of rows that could match meets in one of them. For a
hash join the shuffles see to that (`StageGraph.hashJoin_copartitions`): the hash of the key values
is the home of a row, whichever side and whichever instance it comes from. For a join of nested
loops the left side is spread over the jobs and the right side is copied to all of them
(`StageGraph.join_covers`).

Both are said of any rows and any run: of what the streams of the two sides bring, and of what the
inputs of the join jobs bring once the jobs between them have succeeded. And these do succeed where
nothing disturbs the run and the rows can be sent.
-/

namespace StagedQuery

open scoped List

/-! ### Two tables of numbers -/

/-- A schema for numbers. -/
def Schema.numbers : Schema := { fields := [⟨"n", .int64, true⟩] }

/-- The row of a number. -/
def Row.number (n : Int64) : Row := { vals := [.int64 n] }

/-- A table with one number in each file. -/
def PlanNode.table (name : String) (files : List String) : PlanNode :=
  ⟨.scan { table := name, files }, [], .numbers, []⟩

/-- A node over two tables that have one number in common. -/
def PlanNode.overTables (kind : PlanKind) : PlanNode :=
  ⟨kind, [table "l" ["1", "2"], table "r" ["2", "3"]], .numbers, []⟩

theorem Portable.numbers :
    Portable 67108864 Schema.numbers [.number 1, .number 2, .number 3] where
  announced := by decide +kernel
  valid := by decide +kernel
  countable := by decide +kernel
  length_lt := by decide
  passes := by decide +kernel

namespace StageGraph

section Tables

variable {config : QuerySettings} {graph : StageGraph} {works : List Work}
  {streams : Location → Sink}

/-- A node over two tables runs, if it has a graph that needs no other operators. -/
theorem overTables_runs (config : QuerySettings) {kind : PlanKind}
    (hgraph : (StageGraph.ofPlan (.overTables kind) 2 .twoWorkers).1.toOption.any (fun graph =>
      (graph.jobs.map (·.location.name)).Nodup ∧
        ∀ job ∈ graph.jobs, Registry.withSamples.contains job.tag) = true) :
    ∃ graph scheduler works,
      StageGraph.ofPlan (.overTables kind) 2 .twoWorkers = (.ok graph, scheduler) ∧
        graph.Runs .withSamples works (streamAt (graph.run .withSamples config)) ∧
        ∀ work ∈ works, work.Undisturbed config (streamAt (graph.run .withSamples config)) := by
  rcases h : StageGraph.ofPlan (.overTables kind) 2 .twoWorkers with ⟨_ | graph, scheduler⟩
  · rw [h] at hgraph
    cases hgraph
  · rw [h] at hgraph
    obtain ⟨hnames, hcontains⟩ := of_decide_eq_true hgraph
    obtain ⟨works, hruns, hundisturbed, -⟩ := ofPlan_runs config h hnames hcontains
    exact ⟨graph, scheduler, works, rfl, hruns, hundisturbed⟩

/-- A table of two numbers, scanned in two slices. -/
theorem Runs.table_carries (h : graph.Runs .withSamples works streams)
    (hu : ∀ work ∈ works, work.Undisturbed config streams) {name file file' : String} {n n' : Int64}
    (hn : numberOfName? file = some n) (hn' : numberOfName? file' = some n')
    (hp : Portable config.maxMessageSize .numbers [.number n, .number n']) {jobs : List StageJob}
    {ls : List Location} (hl : Lowered 2 (.table name [file, file']) jobs ls)
    (hj : ∀ job ∈ jobs, job ∈ graph.jobs) :
    ls.map (fun l => config.read (streams l)) = [[.number n], [.number n']] ∧
      ∀ l ∈ ls, (streams l).Carries config .numbers (config.read (streams l)) ∧
        Brings (streams l).bytes (config.read (streams l)) := by
  have hfile := Operator.scanNumber_of_number hn
  have hfile' := Operator.scanNumber_of_number hn'
  let slices : List (List String × List Row) := [([file], [.number n]), ([file'], [.number n'])]
  have hslices : TableScan.slices { table := name, files := [file, file'] } 2 =
      .ok (slices.map fun s => .scan name [] s.1) := rfl
  refine h.slices_carry hu rfl hl rfl rfl hj hslices ?_ ?_
  · simp only [slices, List.forall_mem_cons, List.forall₂_cons]
    exact ⟨⟨hfile, .nil⟩, ⟨hfile', .nil⟩, by simp⟩
  · simp only [slices, List.forall_mem_cons]
    exact ⟨hp.sublist (by simp), hp.sublist (by simp), by simp⟩

/-- Both tables, scanned before what is over them. -/
theorem Runs.tables_carry (h : graph.Runs .withSamples works streams)
    (hu : ∀ work ∈ works, work.Undisturbed config streams)
    (hp : Portable config.maxMessageSize .numbers [.number 1, .number 2, .number 3])
    {kind : PlanKind} {below : List StageJob} {left right : Side}
    (hl : LoweredInputs 2 (PlanNode.overTables kind).inputs below [left, right])
    (hj : ∀ job ∈ below, job ∈ graph.jobs) :
    left.schema = .numbers ∧ right.schema = .numbers ∧
      left.streams.map (fun l => config.read (streams l)) = [[.number 1], [.number 2]] ∧
      right.streams.map (fun l => config.read (streams l)) = [[.number 2], [.number 3]] ∧
      ∀ l ∈ left.streams ++ right.streams,
        (streams l).Carries config .numbers (config.read (streams l)) ∧
          Brings (streams l).bytes (config.read (streams l)) := by
  rcases hl with _ | ⟨hleft, hrest⟩
  rcases hrest with _ | ⟨hright, hnil⟩
  cases hnil
  obtain ⟨hleftJobs, hrightJobs⟩ := List.forall_mem_append.mp hj
  rw [List.append_nil] at hrightJobs
  obtain ⟨hleftRows, hleftCarries⟩ := h.table_carries hu rfl rfl
    (hp.sublist (by decide)) hleft hleftJobs
  obtain ⟨hrightRows, hrightCarries⟩ := h.table_carries hu rfl rfl
    (hp.sublist (by decide)) hright hrightJobs
  exact ⟨rfl, rfl, hleftRows, hrightRows, List.forall_mem_append.mpr ⟨hleftCarries, hrightCarries⟩⟩

end Tables

theorem kind_of_layer {α : Type} {kind : JobKind} {inputs : α → List Location} {n : Nat}
    {schema : Schema} {payload : Bytes} {as : List α} {jobs : List StageJob}
    (h : List.Forall₂ (fun a => StageJob.Does kind (inputs a) n schema payload) as jobs) :
    ∀ job ∈ jobs, job.kind = kind := by
  intro job hjob
  obtain ⟨a, -, hdoes⟩ := exists_of_forall₂ h hjob
  exact hdoes.kind_eq

/-- The input groups of a join whose inputs are those of its two sides. -/
theorem inputGroups_append {job : StageJob} {left right : List Location}
    (hi : job.inputs = left ++ right) (hl : job.leftInputs = left.length) :
    job.inputGroups = (left, right) := by
  rw [StageJob.inputGroups, hi, hl, List.take_left, List.drop_left]

/-! ### Hash joins -/

/-- Where rows with some key values go. -/
def home (p : Nat) (key : List Value) : Nat :=
  (SipHash.hash (key.flatMap Value.hashBytes)).toNat % max p 1

theorem home_lt {p : Nat} (hp : 0 < p) (key : List Value) : home p key < p := by
  rw [home, Nat.max_eq_left hp]
  exact Nat.mod_lt _ hp

/-- Keys whose values compare equal have one home. -/
theorem home_eq {p : Nat} {key key' : List Value}
    (h : List.Forall₂ (fun v v' => Value.compare v v' = .eq) key key') :
    home p key = home p key' := by
  have hkey : key = key' := List.forall₂_eq_eq_eq ▸ h.imp fun _ _ => Value.eq_of_compare
  rw [hkey]

section HashJoin

variable {registry : Registry} {graph : StageGraph} {works : List Work}
  {streams : Location → Sink} {rows : Location → List Row}

/-- A shuffle that has succeeded has brought every row home. -/
theorem Runs.shuffled (h : graph.Runs registry works streams)
    (hget : registry.get? .shuffle = some Operator.shuffle) {keys : List Nat} {l : Location}
    {p : Nat} {schema : Schema} {job : StageJob} (hd : job.Does (.shuffle keys) [l] p schema [])
    (hw : ∃ work ∈ works, work.job = job ∧ work.outcome.result = .ok ())
    (hb : Brings (streams l).bytes (rows l)) {i : Nat} {output : Location}
    (hi : job.outputs[i]? = some output) :
    Brings (streams output).bytes
      ((rows l).filter fun row => home p (row.keyValues keys) = i) := by
  have hbrings := h.brings_moved hd hget rfl (Operator.shuffle_deals hd.kind_eq p) hw
    (List.forall_mem_singleton.mpr hb) hi
  rwa [List.flatMap_singleton, Operator.dealtTo_shuffle] at hbrings

/-- Output `i` of each shuffle brings the rows of its stream that are at home there. -/
theorem Runs.shuffled_column (h : graph.Runs registry works streams)
    (hget : registry.get? .shuffle = some Operator.shuffle) {keys : List Nat} {p : Nat}
    {schema : Schema} {ls : List Location} {jobs : List StageJob}
    (hd : List.Forall₂ (fun l => StageJob.Does (.shuffle keys) [l] p schema []) ls jobs)
    (hw : ∀ job ∈ jobs, ∃ work ∈ works, work.job = job ∧ work.outcome.result = .ok ())
    (hb : ∀ l ∈ ls, Brings (streams l).bytes (rows l)) {i : Nat} (hi : i < p) :
    List.Forall₂ (fun l input => Brings (streams input).bytes
        ((rows l).filter fun row => home p (row.keyValues keys) = i))
      ls (jobs.filterMap (·.outputs[i]?)) := by
  induction hd with
  | nil => exact .nil
  | @cons l job ls jobs hjob _ ih =>
    obtain ⟨hwork, hworks⟩ := List.forall_mem_cons.mp hw
    obtain ⟨hl, hls⟩ := List.forall_mem_cons.mp hb
    have hlt : i < job.outputs.length := hjob.length_outputs ▸ hi
    have hout := List.getElem?_eq_getElem hlt
    have hcolumn : (job :: jobs).filterMap (·.outputs[i]?) =
        job.outputs[i] :: jobs.filterMap (·.outputs[i]?) := List.filterMap_cons_some hout
    rw [hcolumn]
    exact .cons (h.shuffled hget hjob hwork hl hout) (ih hworks hls)

/-- From the shuffles of both sides, job `i` of a hash join gets the rows that are at home there. -/
theorem Runs.copartitioned (h : graph.Runs registry works streams)
    (hget : registry.get? .shuffle = some Operator.shuffle) {leftKeys rightKeys : List Nat}
    {p : Nat} {left right : Side} {schema : Schema} {payload : Bytes}
    {lefts rights joins : List StageJob}
    (hl : List.Forall₂ (fun l => StageJob.Does (.shuffle leftKeys) [l] p left.schema [])
      left.streams lefts)
    (hr : List.Forall₂ (fun l => StageJob.Does (.shuffle rightKeys) [l] p right.schema [])
      right.streams rights)
    (hj : List.Forall₂ (fun i => StageJob.Does (.hashJoin lefts.length leftKeys rightKeys)
      ((lefts ++ rights).filterMap (·.outputs[i]?)) 1 schema payload) (List.range p) joins)
    (hw : ∀ job ∈ lefts ++ rights, ∃ work ∈ works, work.job = job ∧
      work.outcome.result = .ok ())
    (hb : ∀ l ∈ left.streams ++ right.streams, Brings (streams l).bytes (rows l)) (i : Nat)
    (hi : i < joins.length) :
    List.Forall₂ (fun l input => Brings (streams input).bytes
        ((rows l).filter fun row => home p (row.keyValues leftKeys) = i))
      left.streams joins[i].inputGroups.1 ∧
    List.Forall₂ (fun l input => Brings (streams input).bytes
        ((rows l).filter fun row => home p (row.keyValues rightKeys) = i))
      right.streams joins[i].inputGroups.2 := by
  obtain ⟨hleft, hright⟩ := List.forall_mem_append.mp hb
  obtain ⟨hleftWorks, hrightWorks⟩ := List.forall_mem_append.mp hw
  have hlt : i < p := by
    rwa [← hj.length_eq, List.length_range] at hi
  have hdoes := (List.forall₂_iff_get.mp hj).2 i (by simpa using hlt) hi
  have hleftColumn := h.shuffled_column hget hl hleftWorks hleft hlt
  have hrightColumn := h.shuffled_column hget hr hrightWorks hright hlt
  have hgroups : joins[i].inputGroups =
      (lefts.filterMap (·.outputs[i]?), rights.filterMap (·.outputs[i]?)) := by
    refine inputGroups_append ?_ ?_
    · have hinputs := hdoes.inputs_eq
      simp only [List.get_eq_getElem, List.getElem_range, List.filterMap_append] at hinputs
      exact hinputs
    · have hkind : joins[i].kind = _ := hdoes.kind_eq
      rw [StageJob.leftInputs, hkind, ← hleftColumn.length_eq, hl.length_eq]
  rw [hgroups]
  exact ⟨hleftColumn, hrightColumn⟩

/-- The shuffles of a hash join succeed where nothing disturbs them and the rows can be sent. Once
they have, the inputs of its jobs are partitioned alike on both sides: the key values of a row have
a home, which is one of the jobs and the same for equal keys, and from each instance of either side
a job gets exactly the rows that are at home there, in their order. -/
theorem hashJoin_copartitions {plan : PlanNode} {p : Nat} {scheduler scheduler' : Scheduler}
    {graph : StageGraph} (h : StageGraph.ofPlan plan p scheduler = (.ok graph, scheduler'))
    {node : PlanNode} (ho : node.Occurs plan) {leftKeys rightKeys : List Nat}
    (hk : node.kind = .hashJoin leftKeys rightKeys) :
    ∃ (left right : Side) (below lefts rights joins : List StageJob),
      LoweredInputs p node.inputs below [left, right] ∧
      below ++ (lefts ++ (rights ++ joins)) <:+: graph.jobs ∧
      List.Forall₂ (fun l => StageJob.Does (.shuffle leftKeys) [l] p left.schema [])
        left.streams lefts ∧
      List.Forall₂ (fun l => StageJob.Does (.shuffle rightKeys) [l] p right.schema [])
        right.streams rights ∧
      (∀ job ∈ joins, job.kind = .hashJoin left.streams.length leftKeys rightKeys) ∧
      joins.length = p ∧
      ∀ (registry : Registry) (works : List Work) (streams : Location → Sink)
        (rows : Location → List Row),
        graph.Runs registry works streams →
        registry.get? .shuffle = some Operator.shuffle →
        (∀ config : QuerySettings, (∀ work ∈ works, work.Undisturbed config streams) →
          (∀ l ∈ left.streams, (streams l).Carries config left.schema (rows l)) →
          (∀ l ∈ right.streams, (streams l).Carries config right.schema (rows l)) →
          Work.Succeeded works (lefts ++ rights)) ∧
        (Work.Succeeded works (lefts ++ rights) →
          (∀ l ∈ left.streams ++ right.streams, Brings (streams l).bytes (rows l)) →
          ∃ home : List Value → Nat, (∀ key, home key < p) ∧
            (∀ key key', List.Forall₂ (fun v v' => Value.compare v v' = .eq) key key' →
              home key = home key') ∧
            ∀ (i : Nat) (hi : i < joins.length),
              List.Forall₂ (fun l input => Brings (streams input).bytes
                  ((rows l).filter fun row => home (row.keyValues leftKeys) = i))
                left.streams joins[i].inputGroups.1 ∧
              List.Forall₂ (fun l input => Brings (streams input).bytes
                  ((rows l).filter fun row => home (row.keyValues rightKeys) = i))
                right.streams joins[i].inputGroups.2) := by
  obtain ⟨jobs, _, sink, hlowered, -, hjobs, -⟩ := ofPlan_lowered h
  obtain ⟨below, own, sides, _, before, after, hinputs, hnode, rfl⟩ := hlowered.jobs_of_occurs ho
  obtain ⟨left, right, lefts, rights, joins, rfl, rfl, hlefts, hrights, hjoins⟩ :=
    hnode.of_hashJoin hk
  have hlength : joins.length = p := by
    rw [← hjoins.length_eq, List.length_range]
  have hinfix : below ++ (lefts ++ (rights ++ joins)) <:+: graph.jobs :=
    ⟨before, after ++ [sink], by rw [hjobs]; simp only [List.append_assoc]⟩
  refine ⟨left, right, below, lefts, rights, joins, hinputs, hinfix, hlefts, hrights, ?_, hlength,
    ?_⟩
  · rw [hlefts.length_eq]
    exact kind_of_layer hjoins
  intro registry works streams rows hruns hget
  constructor
  · intro config hu hleft hright work hw hjob
    rcases List.mem_append.mp hjob with hjob | hjob
    · exact hruns.shuffles_ok hu hget hlefts hleft work hw hjob
    · exact hruns.shuffles_ok hu hget hrights hright work hw hjob
  · intro hok hbrings
    refine ⟨home p, home_lt (ofPlan_pos h), fun _ _ => home_eq, ?_⟩
    have hworks := hruns.work_of_succeeded (fun job hjob => hinfix.subset (by
      simp only [List.mem_append] at hjob ⊢
      tauto)) hok
    exact hruns.copartitioned hget hlefts hrights hjoins hworks hbrings

theorem hashJoin_copartitions_tables :
    let config : QuerySettings := { queryId := ⟨0⟩ }
    ∃ graph scheduler, StageGraph.ofPlan (.overTables (.hashJoin [0] [0])) 2 .twoWorkers =
        (.ok graph, scheduler) ∧
      let streams := streamAt (graph.run .withSamples config)
      let rows := fun l => config.read (streams l)
      ∃ (left right : List Location) (joins : List StageJob) (home : List Value → Nat),
        left.map rows = [[.number 1], [.number 2]] ∧ right.map rows = [[.number 2], [.number 3]] ∧
        joins.length = 2 ∧ (∀ key, home key < 2) ∧ ∀ (i : Nat) (hi : i < joins.length),
          List.Forall₂ (fun l input => Brings (streams input).bytes
              ((rows l).filter fun row => home (row.keyValues [0]) = i))
            left joins[i].inputGroups.1 ∧
          List.Forall₂ (fun l input => Brings (streams input).bytes
              ((rows l).filter fun row => home (row.keyValues [0]) = i))
            right joins[i].inputGroups.2 := by
  intro config
  obtain ⟨graph, scheduler, works, h, hruns, hundisturbed⟩ :=
    overTables_runs config (show (StageGraph.ofPlan (.overTables (.hashJoin [0] [0])) 2
      .twoWorkers).1.toOption.any _ = true by decide +kernel)
  obtain ⟨left, right, below, lefts, rights, joins, hinputs, hinfix, -, -, -, hlength, hall⟩ :=
    hashJoin_copartitions h .root rfl
  obtain ⟨hleftSchema, hrightSchema, hleftRows, hrightRows, hcarries⟩ :=
    hruns.tables_carry hundisturbed .numbers hinputs
      fun job hjob => hinfix.subset (List.mem_append_left _ hjob)
  obtain ⟨hleftCarries, hrightCarries⟩ := List.forall_mem_append.mp hcarries
  obtain ⟨hsucceeds, hmoves⟩ := hall .withSamples works _ _ hruns rfl
  have hok := hsucceeds config hundisturbed
    (fun l hl => hleftSchema ▸ (hleftCarries l hl).1)
    (fun l hl => hrightSchema ▸ (hrightCarries l hl).1)
  obtain ⟨home, hlt, -, hmeet⟩ := hmoves hok fun l hl => (hcarries l hl).2
  exact ⟨graph, scheduler, h, left.streams, right.streams, joins, home, hleftRows, hrightRows,
    hlength, hlt, hmeet⟩

end HashJoin

/-! ### Joins of nested loops -/

section Rerouted

variable {condition : Prop} {kind : JobKind} {n : Nat} {side : Side} {jobs : List StageJob}
  {streams : List Location}

theorem length_of_rerouted [Decidable condition]
    (h : Rerouted condition kind n side jobs streams) :
    streams.length = if condition then n else side.streams.length := by
  cases h with
  | past hcondition => rw [if_neg hcondition]
  | through hcondition hj => rw [if_pos hcondition, hj.length_outputs]

end Rerouted

/-- Each job of a join pairs an output of the left side with a copy of the right one. -/
theorem forall₂_zip {α : Type} {parts : List α} {ls rs : List Location} {jobs : List StageJob}
    {schema : Schema} {payload : Bytes} {P : α → Location → Prop} {Q : Location → Prop}
    (hl : List.Forall₂ P parts ls) (hr : ∀ r ∈ rs, Q r) (hlength : ls.length = rs.length)
    (hj : List.Forall₂ (fun pair => StageJob.Does (.join 1) [pair.1, pair.2] 1 schema payload)
      (ls.zip rs) jobs) :
    List.Forall₂ (fun part job => ∃ l r, StageJob.inputGroups job = ([l], [r]) ∧ P part l ∧ Q r)
      parts jobs := by
  induction hl generalizing rs jobs with
  | nil =>
    cases hj
    exact .nil
  | @cons part l parts ls hpart _ ih =>
    cases rs with
    | nil => cases hlength
    | cons r rs =>
      obtain ⟨hfirst, hrest⟩ := List.forall_mem_cons.mp hr
      cases hj with
      | @cons _ job _ jobs hjob hjobs =>
        refine .cons ⟨l, r, ?_, hpart, hfirst⟩ (ih hrest (Nat.succ.inj hlength) hjobs)
        refine inputGroups_append hjob.inputs_eq ?_
        rw [StageJob.leftInputs, hjob.kind_eq]
        rfl

section Join

variable {registry : Registry} {graph : StageGraph} {works : List Work}
  {streams : Location → Sink} {rows : Location → List Row}

/-- However the left side is spread, its streams bring each row once. -/
theorem Runs.spread (h : graph.Runs registry works streams)
    (hget : registry.get? .balance = some Operator.balance) {p : Nat} {left : Side}
    {spreading : List StageJob} {spread : List Location} (hs : Spread p left spreading spread)
    (hw : ∀ job ∈ spreading, ∃ work ∈ works, work.job = job ∧ work.outcome.result = .ok ())
    (hb : ∀ l ∈ left.streams, Brings (streams l).bytes (rows l)) :
    ∃ parts : List (List Row), parts.flatten ~ left.streams.flatMap rows ∧
      List.Forall₂ (fun part l => Brings (streams l).bytes part) parts spread := by
  cases hs with
  | past _ =>
    refine ⟨left.streams.map rows, ?_, ?_⟩
    · rw [← List.flatMap_def]
    · exact List.forall₂_map_left_iff.mpr (List.forall₂_same.mpr hb)
  | @through job hcondition hjob =>
    have hwork := hw job (List.mem_singleton_self job)
    let deals := Operator.inTurn p 0 (left.streams.flatMap rows)
    refine ⟨(List.range p).map (Stage.dealtTo · deals), ?_, ?_⟩
    · rw [← List.flatMap_def]
      refine (Stage.dealt_perm (Operator.inTurn_lt (Nat.zero_lt_of_lt hcondition.2))).trans ?_
      rw [Operator.map_snd_inTurn]
    · refine List.forall₂_map_left_iff.mpr (List.forall₂_iff_get.mpr ⟨?_, ?_⟩)
      · rw [List.length_range, hjob.length_outputs]
      intro i hi hi'
      rw [List.get_eq_getElem, List.get_eq_getElem, List.getElem_range]
      exact h.brings_moved hjob hget rfl (Operator.balance_deals job p) hwork hb
        (List.getElem?_eq_getElem hi')

/-- A left side is spread where nothing disturbs that and the rows can be sent. -/
theorem Runs.spread_ok (h : graph.Runs registry works streams) {config : QuerySettings}
    (hu : ∀ work ∈ works, work.Undisturbed config streams)
    (hget : registry.get? .balance = some Operator.balance) {p : Nat} {left : Side}
    {spreading : List StageJob} {spread : List Location} (hs : Spread p left spreading spread)
    (hc : ∀ l ∈ left.streams, (streams l).Carries config left.schema (rows l)) :
    Work.Succeeded works spreading := by
  cases hs with
  | past _ =>
    intro work _ hjob
    cases hjob
  | through hcondition hjob =>
    refine h.balance_ok hu hget (Nat.zero_lt_of_lt hcondition.2) hjob hc ?_
    obtain ⟨l, hl⟩ := List.length_eq_one_iff.mp hcondition.1
    rw [hl, List.flatMap_singleton]
    exact (hc l (hl ▸ List.mem_singleton_self l)).portable

/-- Every output of the copier brings the whole right side. -/
theorem Runs.copied (h : graph.Runs registry works streams)
    (hget : registry.get? .duplicate = some Operator.duplicate) {right : Side} {n : Nat}
    {copier : StageJob} (hc : copier.Does .duplicate right.streams n right.schema [])
    (hw : ∃ work ∈ works, work.job = copier ∧ work.outcome.result = .ok ())
    (hb : ∀ l ∈ right.streams, Brings (streams l).bytes (rows l)) :
    ∀ l ∈ copier.outputs, Brings (streams l).bytes (right.streams.flatMap rows) := by
  intro l hl
  obtain ⟨i, hi, rfl⟩ := List.mem_iff_getElem.mp hl
  have hbrings := h.brings_moved hc hget rfl (Operator.duplicate_deals copier n) hw hb
    (List.getElem?_eq_getElem hi)
  rwa [Operator.dealtTo_duplicate (hc.length_outputs ▸ hi)] at hbrings

/-- The balance and the duplicate jobs of a join of nested loops succeed where nothing disturbs
them and the rows can be sent. Once they have, each job of the join has one left and one right
input. The left inputs together bring every left row once, and each right input brings the whole
right side, instance after instance; so each pair of a left and a right row meets in one job, and in
one only. -/
theorem join_covers {plan : PlanNode} {p : Nat} {scheduler scheduler' : Scheduler}
    {graph : StageGraph} (h : StageGraph.ofPlan plan p scheduler = (.ok graph, scheduler'))
    {node : PlanNode} (ho : node.Occurs plan) (hk : node.kind = .join) :
    ∃ (left right : Side) (below spreading joins : List StageJob) (copier : StageJob)
      (spread : List Location),
      LoweredInputs p node.inputs below [left, right] ∧
      below ++ (spreading ++ ([copier] ++ joins)) <:+: graph.jobs ∧
      Spread p left spreading spread ∧
      copier.Does .duplicate right.streams spread.length right.schema [] ∧
      (∀ job ∈ joins, job.kind = .join 1) ∧
      joins.length = (if left.streams.length = 1 ∧ 1 < p then p else left.streams.length) ∧
      ∀ (registry : Registry) (works : List Work) (streams : Location → Sink)
        (rows : Location → List Row),
        graph.Runs registry works streams →
        registry.get? .balance = some Operator.balance →
        registry.get? .duplicate = some Operator.duplicate →
        let leftRows := left.streams.flatMap rows
        let rightRows := right.streams.flatMap rows
        (∀ config : QuerySettings, (∀ work ∈ works, work.Undisturbed config streams) →
          (∀ l ∈ left.streams, (streams l).Carries config left.schema (rows l)) →
          (∀ l ∈ right.streams, (streams l).Carries config right.schema (rows l)) →
          Portable config.maxMessageSize right.schema rightRows →
          Work.Succeeded works (spreading ++ [copier])) ∧
        (Work.Succeeded works (spreading ++ [copier]) →
          (∀ l ∈ left.streams ++ right.streams, Brings (streams l).bytes (rows l)) →
          ∃ parts : List (List Row), parts.flatten ~ leftRows ∧
            List.Forall₂ (fun part job => ∃ l r, StageJob.inputGroups job = ([l], [r]) ∧
              Brings (streams l).bytes part ∧ Brings (streams r).bytes rightRows) parts joins ∧
            parts.flatMap (· ×ˢ rightRows) ~ leftRows ×ˢ rightRows) := by
  obtain ⟨jobs, _, sink, hlowered, -, hjobs, -⟩ := ofPlan_lowered h
  obtain ⟨below, own, sides, _, before, after, hinputs, hnode, rfl⟩ := hlowered.jobs_of_occurs ho
  obtain ⟨left, right, spreading, joins, copier, spread, rfl, rfl, hspread, hcopier, hjoins⟩ :=
    hnode.of_join hk
  have hinfix : below ++ (spreading ++ ([copier] ++ joins)) <:+: graph.jobs :=
    ⟨before, after ++ [sink], by rw [hjobs]; simp only [List.append_assoc]⟩
  refine ⟨left, right, below, spreading, joins, copier, spread, hinputs, hinfix, hspread, hcopier,
    kind_of_layer hjoins, ?_, ?_⟩
  · rw [← hjoins.length_eq, List.length_zip, hcopier.length_outputs, Nat.min_self]
    exact length_of_rerouted hspread
  intro registry works streams rows hruns hbalance hduplicate leftRows rightRows
  constructor
  · intro config hu hleft hright hportable work hw hjob
    rcases List.mem_append.mp hjob with hjob | hjob
    · exact hruns.spread_ok hu hbalance hspread hleft work hw hjob
    · exact hruns.duplicate_ok hu hduplicate hcopier hright hportable work hw hjob
  · intro hok hbrings
    obtain ⟨hleft, hright⟩ := List.forall_mem_append.mp hbrings
    have hworks := hruns.work_of_succeeded (fun job hjob => hinfix.subset (by
      simp only [List.mem_append] at hjob ⊢
      tauto)) hok
    obtain ⟨hspreadWorks, hcopierWork⟩ := List.forall_mem_append.mp hworks
    obtain ⟨parts, hperm, hparts⟩ := hruns.spread hbalance hspread hspreadWorks hleft
    have hcopies := hruns.copied hduplicate hcopier
      (hcopierWork copier (List.mem_singleton_self copier)) hright
    refine ⟨parts, hperm, ?_, ?_⟩
    · exact forall₂_zip hparts hcopies hcopier.length_outputs.symm hjoins
    · calc parts.flatMap (· ×ˢ rightRows)
        _ = parts.flatMap id ×ˢ rightRows := List.flatMap_assoc.symm
        _ = parts.flatten ×ˢ rightRows := by rw [List.flatMap_id]
        _ ~ leftRows ×ˢ rightRows := hperm.product_right rightRows

theorem join_covers_tables :
    let config : QuerySettings := { queryId := ⟨0⟩ }
    ∃ graph scheduler, StageGraph.ofPlan (.overTables .join) 2 .twoWorkers =
        (.ok graph, scheduler) ∧
      let streams := streamAt (graph.run .withSamples config)
      let rows := fun l => config.read (streams l)
      let leftRows : List Row := [.number 1, .number 2]
      let rightRows : List Row := [.number 2, .number 3]
      ∃ (left right : List Location) (joins : List StageJob) (parts : List (List Row)),
        left.flatMap rows = leftRows ∧ right.flatMap rows = rightRows ∧ joins.length = 2 ∧
        parts.flatten ~ leftRows ∧
        List.Forall₂ (fun part job => ∃ l r, StageJob.inputGroups job = ([l], [r]) ∧
          Brings (streams l).bytes part ∧ Brings (streams r).bytes rightRows) parts joins ∧
        parts.flatMap (· ×ˢ rightRows) ~ leftRows ×ˢ rightRows := by
  intro config
  obtain ⟨graph, scheduler, works, h, hruns, hundisturbed⟩ :=
    overTables_runs config (show (StageGraph.ofPlan (.overTables .join) 2
      .twoWorkers).1.toOption.any _ = true by decide +kernel)
  obtain ⟨left, right, below, spreading, joins, copier, spread, hinputs, hinfix, -, -, -, hlength,
    hall⟩ := join_covers h .root rfl
  obtain ⟨hleftSchema, hrightSchema, hleftRows, hrightRows, hcarries⟩ :=
    hruns.tables_carry hundisturbed .numbers hinputs
      fun job hjob => hinfix.subset (List.mem_append_left _ hjob)
  have htwo : left.streams.length = 2 := by
    simpa using congrArg List.length hleftRows
  replace hleftRows := congrArg List.flatten hleftRows
  replace hrightRows := congrArg List.flatten hrightRows
  rw [← List.flatMap_def] at hleftRows hrightRows
  obtain ⟨hleftCarries, hrightCarries⟩ := List.forall_mem_append.mp hcarries
  obtain ⟨hsucceeds, hmoves⟩ := hall .withSamples works _ _ hruns rfl rfl
  have hok := hsucceeds config hundisturbed
    (fun l hl => hleftSchema ▸ (hleftCarries l hl).1)
    (fun l hl => hrightSchema ▸ (hrightCarries l hl).1)
    (by
      rw [hrightSchema, hrightRows]
      exact Portable.numbers.sublist (by decide))
  obtain ⟨parts, hperm, hparts, hpairs⟩ := hmoves hok fun l hl => (hcarries l hl).2
  rw [htwo] at hlength
  rw [hleftRows] at hperm hpairs
  rw [hrightRows] at hparts hpairs
  exact ⟨graph, scheduler, h, left.streams, right.streams, joins, parts, hleftRows, hrightRows,
    hlength, hperm, hparts, hpairs⟩

end Join

end StageGraph

end StagedQuery

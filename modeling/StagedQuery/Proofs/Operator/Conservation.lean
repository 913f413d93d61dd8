import StagedQuery.Operator.Registry
import StagedQuery.Proofs.Operator.Movement

/-!
# Moving rows keeps every row

Some operators only move rows: what they hand out is what they have read, in an order that the
inputs and the kind of the job determine (`Operator.Owes`). An input that ends well and any number
of outputs being given, such an operator gives every output what it owes it, and if the outputs can
be closed their streams bring that (`Operator.Gives`, `Operator.builtins_conserve`). Where batches
begin and end, in the inputs or in the outputs, takes no part in it.

A merge owes less than the others, as nobody says that its inputs are sorted. Its output is an
*interleaving* of the inputs (`Row.Interleaving`): the inputs can be dealt out of it again.
-/

namespace StagedQuery

open scoped List

/-! ### Interleavings -/

/-- Some rows are an interleaving of parts: every row comes from one of the parts, and what comes
from a part is that part. -/
def Row.Interleaving (parts : List (List Row)) (whole : List Row) : Prop :=
  ∃ origins : List (Nat × Row), whole = origins.map (·.2) ∧
    (∀ origin ∈ origins, origin.1 < parts.length) ∧
    ∀ i part, parts[i]? = some part → Stage.dealtTo i origins = part

namespace Row.Interleaving

variable {parts before after : List (List Row)} {part whole : List Row} {row : Row}

theorem nil (h : ∀ part ∈ parts, part = []) : Interleaving parts [] :=
  ⟨[], rfl, by simp, fun _ part hi => (h part (List.mem_of_getElem? hi)).symm⟩

/-- The next row is the head of one of the parts. -/
theorem cons (h : Interleaving (before ++ part :: after) whole) :
    Interleaving (before ++ (row :: part) :: after) (row :: whole) := by
  obtain ⟨origins, rfl, hlt, hparts⟩ := h
  refine ⟨(before.length, row) :: origins, rfl, ?_, ?_⟩
  · refine List.forall_mem_cons.mpr ⟨by simp, ?_⟩
    simpa using hlt
  · intro i p hi
    by_cases hib : before.length = i
    · subst hib
      rw [Stage.dealtTo_cons_self, hparts before.length part (by simp)]
      simpa using hi
    · rw [Stage.dealtTo_cons_of_ne hib]
      refine hparts i p ?_
      grind

/-- Every row of the parts is there as often as in them. -/
theorem perm (h : Interleaving parts whole) : whole ~ parts.flatten := by
  obtain ⟨origins, rfl, hlt, hparts⟩ := h
  have hall : parts = (List.range parts.length).map (Stage.dealtTo · origins) := by
    refine List.ext_getElem (by simp) ?_
    intro i hi _
    rw [List.getElem_map, List.getElem_range]
    exact (hparts i _ (List.getElem?_eq_getElem hi)).symm
  rw [hall, ← List.flatMap_def]
  exact (Stage.dealt_perm hlt).symm

/-- The rows of a part keep their order. -/
theorem sublist (h : Interleaving parts whole) (hp : part ∈ parts) : part.Sublist whole := by
  obtain ⟨origins, rfl, -, hparts⟩ := h
  obtain ⟨i, hi⟩ := List.mem_iff_getElem?.mp hp
  exact hparts i part hi ▸ Operator.dealtTo_sublist i origins

end Row.Interleaving

/-- Feeds that end well are merged into an interleaving of their rows, sorted or not. -/
theorem Feed.merge_interleaves {keys : List SortKey} {feeds : List Feed}
    (hf : ∀ f ∈ feeds, f.fault = none) :
    (merge keys feeds).fault = none ∧
      Row.Interleaving (feeds.map (·.rows)) (merge keys feeds).rows := by
  fun_induction merge keys feeds with
  | case1 feeds e hstalled =>
    rw [stalled?_eq_none hf] at hstalled
    cases hstalled
  | case2 feeds _ htake =>
    refine ⟨rfl, .nil ?_⟩
    exact List.forall_mem_map.mpr (List.flatMap_eq_nil_iff.mp (takeLeast?_eq_none htake))
  | case3 feeds _ least rest htake merged ih =>
    obtain ⟨before, feed, after, rfl, rfl, -⟩ := takeLeast?_eq_some htake
    simp only [List.forall_mem_append, List.forall_mem_cons] at hf ih
    obtain ⟨hfault, hrows⟩ := ih hf
    refine ⟨hfault, ?_⟩
    rw [List.map_append, List.map_cons] at hrows ⊢
    exact hrows.cons

/-! ### Rows for the first output -/

namespace Delivery

variable {ds : List Delivery}

/-- Going through inputs that end well is going through their batches. -/
theorem eachBatch_clean (h : ∀ d ∈ ds, d.fault = none) (f : RowGroup → Action Stage Unit) :
    Action.each (eachBatch f) ds = Action.each f (ds.flatMap (·.batches)) := by
  induction ds with
  | nil => rfl
  | cons d ds ih =>
    obtain ⟨hd, hds⟩ := List.forall_mem_cons.mp h
    have hbatches : eachBatch f d = Action.each f d.batches := by
      rw [eachBatch, finish_clean hd]
      exact bind_pure_unit
    rw [Action.each_cons, hbatches, ih hds, List.flatMap_cons, Action.each_append]

end Delivery

/-- Handing over groups is handing over their rows one by one. -/
theorem Stage.each_writeGroup {stage : Stage} {i : Nat} (hi : i < stage.outputs.length)
    (groups : List RowGroup) :
    Action.each (fun group => onOutput i (RowWriter.writeGroup group)) groups stage =
      Action.each (write i) (groups.flatMap RowGroup.intoRows) stage := by
  induction groups generalizing stage with
  | nil => rfl
  | cons group groups ih =>
    have hgroup := each_write hi group.intoRows
    have hlength := (Action.writes_each (Action.writes_write i) group.intoRows stage).length_eq
    rw [List.flatMap_cons, Action.each_append, Action.each_cons]
    rcases hrows : Action.each (write i) group.intoRows stage with ⟨_ | _, stage'⟩
    · rw [hrows] at hgroup
      rw [Action.bind_error hrows]
      exact Action.bind_error hgroup.symm
    · rw [hrows] at hgroup hlength
      rw [Action.bind_ok hrows, ← ih (hlength ▸ hi)]
      exact Action.bind_ok hgroup.symm

namespace Operator

variable {operator : Operator} {job : StageJob} {inputs : List Delivery} {n : Nat}
  {deals : List (Nat × Row)}

theorem concatenate_deals (job : StageJob) (hn : 0 < n) :
    concatenate.DealsRows job n (·.map (0, ·)) := by
  intro inputs h stage hlength
  rw [concatenate, Delivery.eachBatch_clean h, Stage.each_writeGroup (hlength ▸ hn),
    List.flatMap_assoc, Stage.deal, Action.each_map]
  rfl

/-- A merge deals an interleaving of its inputs to the first output. -/
theorem merge_deals {keys : List SortKey} (hk : job.kind = .orderByGlobal keys)
    (h : ∀ d ∈ inputs, d.fault = none) (n : Nat) :
    ∃ rows, Row.Interleaving (inputs.map Delivery.rows) rows ∧
      merge.Deals job inputs n (rows.map (0, ·)) := by
  obtain ⟨hfault, hrows⟩ :=
    @Feed.merge_interleaves keys (inputs.map fun d => ⟨d.rows, d.fault⟩) (List.forall_mem_map.mpr h)
  rw [List.map_map] at hrows
  refine ⟨_, hrows, fun stage _ => ?_⟩
  rw [merge, sortKeys, hk, Stage.deal, Action.each_map]
  simp only [pure_bind, hfault]
  exact congrFun (bind_pure _) stage

theorem dealtTo_first (i : Nat) (rows : List Row) :
    Stage.dealtTo i (rows.map (0, ·)) = if i = 0 then rows else [] := by
  rw [Stage.dealtTo, List.flatMap_map]
  by_cases hi : i = 0
  · simp [hi]
  · simp [hi, Ne.symm hi]

/-- Rows that are dealt in turn: of `n` outputs, the one that comes `j` after the first to get a row
gets those at the positions `j`, `j + n` and so on. -/
theorem getElem?_inTurn {n j : Nat} (hj : j < n) (start : Nat) (rows : List Row) (k : Nat) :
    (Stage.dealtTo ((start + j) % n) (inTurn n start rows))[k]? = rows[j + k * n]? := by
  rw [← getElem?_hand hj start rows k, Stage.dealtTo_eq, inTurn, List.filter_map, List.map_map]
  rfl

end Operator

/-! ### What outputs are given -/

/-- A fresh writer onto a transport that takes everything, and rows of which nothing is too long to
be counted: no text, no batch and no frame. -/
structure RowWriter.Roomy (schema : Schema) (rows : List Row) (w : RowWriter) : Prop where
  fresh : w = create w.frames.sink schema w.threshold
  empty : w.frames.sink.bytes = []
  neverFails : w.frames.sink.NeverFails
  announced : frameOf schema.toJson.bytes = .ok (frameBytes schema.toJson.bytes)
  countable : ∀ row ∈ rows, row.Countable
  batches : ∀ batch ∈ batches w.threshold (rows.map .row), batch.length < 0x80000000 ∧
    ∀ m ∈ (RowGroup.collected schema batch).messages schema, frameOf m = .ok (frameBytes m)

/-- Such a writer takes rows that fit its schema and can be closed, and its stream brings them. -/
theorem RowWriter.Roomy.brings {schema : Schema} {rows : List Row} {w : RowWriter}
    (h : w.Roomy schema rows) (hvalid : ∀ row ∈ rows, row.validate schema = .ok ()) :
    ∃ w' w'', writeRows rows w = (.ok (), w') ∧ close w' = (.ok (), w'') ∧
      Brings w''.frames.sink.bytes rows := by
  have hrows : (rows.map Call.row).flatMap Call.rows = rows := Call.flatMap_rows_row rows
  have hwritable : ∀ batch ∈ RowWriter.batches w.threshold (rows.map .row),
      Writable schema batch := by
    intro batch hb
    have hsub : batch.Sublist rows := by
      rw [← hrows, ← flatten_batches w.threshold]
      exact List.sublist_flatten_of_mem hb
    obtain ⟨hlength, hframed⟩ := h.batches batch hb
    exact ⟨fun row hrow => hvalid row (hsub.subset hrow),
      fun row hrow => h.countable row (hsub.subset hrow), hlength, hframed⟩
  obtain ⟨w'', hsession, -⟩ :=
    session_eq h.neverFails (hrows.symm ▸ hvalid) h.announced hwritable
  rw [← h.fresh] at hsession
  obtain ⟨⟨⟩, w', hwrite, hclose⟩ := Action.bind_eq_ok.mp hsession
  rw [Action.each_map] at hwrite
  have hblank : w.Blank schema := ⟨_, _, h.empty, h.fresh⟩
  exact ⟨w', w'', hwrite, hclose, hblank.brings hwrite hclose⟩

namespace Operator

/-- On these inputs an operator with `n` outputs gives each output some rows. -/
structure Gives (operator : Operator) (job : StageJob) (inputs : List Delivery) (n : Nat)
    (given : Nat → List Row) : Prop where
  /-- When it succeeds, every output has been handed its rows, one by one and no others, whatever
  it held before and wherever its batches end. -/
  handed : ∀ stage stage' : Stage, stage.outputs.length = n →
    operator job inputs stage = (.ok (), stage') →
    ∀ i w, stage.outputs[i]? = some w →
      ∃ w', stage'.outputs[i]? = some w' ∧ RowWriter.writeRows (given i) w = (.ok (), w')
  /-- It succeeds whenever every output takes its rows. -/
  taken : ∀ stage : Stage, stage.outputs.length = n →
    (∀ i w, stage.outputs[i]? = some w →
      ∃ w', RowWriter.writeRows (given i) w = (.ok (), w')) →
    ∃ stage', operator job inputs stage = (.ok (), stage')
  /-- Its work on fresh outputs succeeds, and every output brings its rows. -/
  brought : ∀ writers : List RowWriter, writers.length = n →
    (∀ (i : Nat) (w : RowWriter), writers[i]? = some w → w.Roomy job.schema (given i)) →
    (operator.perform job inputs writers).result = .ok () ∧
      (operator.perform job inputs writers).outputs.length = n ∧
      ∀ i w, (operator.perform job inputs writers).outputs[i]? = some w →
        Brings w.frames.sink.bytes (given i)

variable {operator : Operator} {job : StageJob} {inputs : List Delivery} {n : Nat}
  {deals : List (Nat × Row)}

/-- An operator that deals out rows that fit the schema gives every output those that go there. -/
theorem Deals.gives (h : operator.Deals job inputs n deals) (ht : ∀ d ∈ deals, d.1 < n)
    (hvalid : ∀ row ∈ deals.map (·.2), row.validate job.schema = .ok ()) :
    Gives operator job inputs n (Stage.dealtTo · deals) where
  handed := by
    intro stage stage' hn hrun i w hi
    exact Stage.deal_eq_ok ((h stage hn).symm.trans hrun) hi
  taken := by
    intro stage hn htakes
    rw [h stage hn]
    exact Stage.exists_deal (hn.symm ▸ ht) htakes
  brought := by
    rintro writers rfl hroomy
    obtain ⟨hok, hbrings⟩ := h.succeeds ht fun i w hi =>
      (hroomy i w hi).brings fun row hrow => hvalid row ((dealtTo_sublist i deals).subset hrow)
    obtain ⟨stage, hrun, hclosed⟩ := perform_eq_ok hok
    have hlength := Stage.length_deal ((h _ rfl).symm.trans hrun)
    have hclose := (closeOutputs_eq_ok hclosed).length_eq
    exact ⟨hok, hclose.symm.trans hlength, hbrings⟩

/-! ### What outputs are owed -/

/-- The jobs that only move rows, and have a built-in operator. -/
def movesRows : JobKind → Bool
  | .duplicate | .balance | .shuffle _ | .union | .aggregate | .orderByGlobal _ => true
  | _ => false

/-- What a job that moves rows owes its `n` outputs for its inputs. -/
def Owes (kind : JobKind) (inputs : List (List Row)) (n : Nat) (given : Nat → List Row) : Prop :=
  match kind with
  | .duplicate => ∀ i < n, given i = inputs.flatten
  | .balance => (∀ i < n, ∀ k, (given i)[k]? = inputs.flatten[i + k * n]?) ∧
      (List.range n).flatMap given ~ inputs.flatten
  | .shuffle columns => (∀ i < n, given i = inputs.flatten.filter (Row.route · columns n = i)) ∧
      (List.range n).flatMap given ~ inputs.flatten
  | .union | .aggregate => ∀ i < n, given i = if i = 0 then inputs.flatten else []
  | .orderByGlobal _ => ∃ rows, Row.Interleaving inputs rows ∧ rows ~ inputs.flatten ∧
      (∀ input ∈ inputs, input.Sublist rows) ∧ ∀ i < n, given i = if i = 0 then rows else []
  | _ => False

/-- An operator with `n` outputs deals out what the job owes them: rows of the inputs. -/
structure Fulfils (operator : Operator) (job : StageJob) (inputs : List Delivery) (n : Nat)
    (deals : List (Nat × Row)) : Prop where
  dealt : operator.Deals job inputs n deals
  lt : ∀ d ∈ deals, d.1 < n
  rows : ∀ row ∈ deals.map (·.2), row ∈ inputs.flatMap Delivery.rows
  owed : Owes job.kind (inputs.map Delivery.rows) n (Stage.dealtTo · deals)

theorem duplicate_fulfils (hk : job.kind = .duplicate) (h : ∀ d ∈ inputs, d.fault = none)
    (n : Nat) : ∃ deals, duplicate.Fulfils job inputs n deals := by
  refine ⟨_, duplicate_deals job n inputs h, ?_, ?_, ?_⟩
  · intro d hd
    obtain ⟨row, -, hd⟩ := List.mem_flatMap.mp hd
    obtain ⟨i, hi, rfl⟩ := List.mem_map.mp hd
    exact List.mem_range.mp hi
  · refine List.forall_mem_map.mpr fun d hd => ?_
    obtain ⟨row, hrow, hd⟩ := List.mem_flatMap.mp hd
    obtain ⟨i, -, rfl⟩ := List.mem_map.mp hd
    exact hrow
  · rw [hk, Owes, ← List.flatMap_def]
    exact fun i hi => dealtTo_duplicate hi _

theorem balance_fulfils (hk : job.kind = .balance) (h : ∀ d ∈ inputs, d.fault = none)
    (hn : 0 < n) : ∃ deals, balance.Fulfils job inputs n deals := by
  have hrows := map_snd_inTurn n 0 (inputs.flatMap Delivery.rows)
  have hlt : ∀ d ∈ inTurn n 0 (inputs.flatMap Delivery.rows), d.1 < n := inTurn_lt hn
  refine ⟨_, balance_deals job n inputs h, hlt, fun row hrow => hrows ▸ hrow, ?_⟩
  rw [hk, Owes, ← List.flatMap_def]
  refine ⟨fun i hi k => ?_, (Stage.dealt_perm hlt).trans (List.Perm.of_eq hrows)⟩
  have hturn := getElem?_inTurn hi 0 (inputs.flatMap Delivery.rows) k
  rwa [Nat.zero_add, Nat.mod_eq_of_lt hi] at hturn

theorem shuffle_fulfils {columns : List Nat} (hk : job.kind = .shuffle columns)
    (h : ∀ d ∈ inputs, d.fault = none) (hn : 0 < n) :
    ∃ deals, shuffle.Fulfils job inputs n deals := by
  have hrows : ((inputs.flatMap Delivery.rows).map fun row => (row.route columns n, row)).map
      (·.2) = inputs.flatMap Delivery.rows := by
    rw [List.map_map]
    exact List.map_id _
  have hlt : ∀ d ∈ (inputs.flatMap Delivery.rows).map fun row => (row.route columns n, row),
      d.1 < n := List.forall_mem_map.mpr fun row _ => route_lt hn row columns
  refine ⟨_, shuffle_deals hk n inputs h, hlt, fun row hrow => hrows ▸ hrow, ?_⟩
  rw [hk, Owes, ← List.flatMap_def]
  exact ⟨fun i _ => dealtTo_shuffle i _ _, (Stage.dealt_perm hlt).trans (List.Perm.of_eq hrows)⟩

theorem concatenate_fulfils (hk : job.kind = .union ∨ job.kind = .aggregate)
    (h : ∀ d ∈ inputs, d.fault = none) (hn : 0 < n) :
    ∃ deals, concatenate.Fulfils job inputs n deals := by
  refine ⟨_, concatenate_deals job hn inputs h, List.forall_mem_map.mpr fun _ _ => hn, by simp, ?_⟩
  have howed : ∀ i < n, Stage.dealtTo i ((inputs.flatMap Delivery.rows).map (0, ·)) =
      if i = 0 then (inputs.map Delivery.rows).flatten else [] := by
    rw [← List.flatMap_def]
    exact fun i _ => dealtTo_first i _
  obtain hk | hk := hk
  · rw [hk]
    exact howed
  · rw [hk]
    exact howed

theorem merge_fulfils {keys : List SortKey} (hk : job.kind = .orderByGlobal keys)
    (h : ∀ d ∈ inputs, d.fault = none) (hn : 0 < n) :
    ∃ deals, merge.Fulfils job inputs n deals := by
  obtain ⟨rows, hrows, hdeals⟩ := merge_deals hk h n
  refine ⟨_, hdeals, List.forall_mem_map.mpr fun _ _ => hn, ?_, ?_⟩
  · intro row hrow
    rw [List.flatMap_def]
    exact hrows.perm.subset (by simpa using hrow)
  · rw [hk]
    exact ⟨rows, hrows, hrows.perm, fun input => hrows.sublist, fun i _ => dealtTo_first i rows⟩

/-- Every built-in operator for jobs that move rows deals out what these owe. -/
theorem builtins_fulfil (hget : Registry.builtins.get? job.tag = some operator)
    (hmoves : movesRows job.kind) (h : ∀ d ∈ inputs, d.fault = none) (hn : 0 < n) :
    ∃ deals, operator.Fulfils job inputs n deals := by
  rw [StageJob.tag] at hget
  cases hk : job.kind with
  | duplicate =>
    rw [hk] at hget
    cases hget
    exact duplicate_fulfils hk h n
  | balance =>
    rw [hk] at hget
    cases hget
    exact balance_fulfils hk h hn
  | shuffle columns =>
    rw [hk] at hget
    cases hget
    exact shuffle_fulfils hk h hn
  | union =>
    rw [hk] at hget
    cases hget
    exact concatenate_fulfils (.inl hk) h hn
  | aggregate =>
    rw [hk] at hget
    cases hget
    exact concatenate_fulfils (.inr hk) h hn
  | orderByGlobal keys =>
    rw [hk] at hget
    cases hget
    exact merge_fulfils hk h hn
  | _ =>
    rw [hk] at hmoves
    cases hmoves

/-! ### No outputs -/

theorem write_without_outputs {stage : Stage} (h : stage.outputs = []) (i : Nat) (row : Row) :
    Stage.write i row stage =
      (.error (.taskFailed s!"output {i} requested, job has {0}"), stage) := by
  simp only [Stage.write, Stage.onOutput, Action.zoomAt, h, List.getElem?_nil, List.length_nil]

/-- Without outputs balance and shuffle refuse the first row, and do nothing. -/
theorem refuses_first_row (hget : Registry.builtins.get? job.tag = some operator)
    (hkind : job.kind = .balance ∨ ∃ columns, job.kind = .shuffle columns)
    (h : ∀ d ∈ inputs, d.fault = none) {stage : Stage} (hs : stage.outputs = []) :
    operator job inputs stage =
      if inputs.flatMap Delivery.rows = [] then (.ok (), stage)
      else (.error (.taskFailed "output 0 requested, job has 0"), stage) := by
  have hlength : stage.outputs.length = 0 := congrArg List.length hs
  obtain hk | ⟨columns, hk⟩ := hkind
  · rw [StageJob.tag, hk] at hget
    cases hget
    rw [balance_deals job 0 inputs h stage hlength]
    cases inputs.flatMap Delivery.rows with
    | nil => rfl
    | cons row rows => exact Action.bind_error (write_without_outputs hs 0 row)
  · rw [StageJob.tag, hk] at hget
    cases hget
    rw [shuffle_deals hk 0 inputs h stage hlength]
    cases inputs.flatMap Delivery.rows with
    | nil => rfl
    | cons row rows =>
      have hroute : row.route columns 0 = 0 := Nat.mod_one _
      have hwrite : Stage.write (row.route columns 0) row stage =
          (.error (.taskFailed "output 0 requested, job has 0"), stage) := by
        rw [hroute]
        exact write_without_outputs hs 0 row
      exact Action.bind_error hwrite

/-- Remainders as a machine has them: what a division by zero does is not said. -/
def Remainders (rem : Nat → Nat → Action Stage Nat) : Prop :=
  ∀ a n, 0 < n → rem a n = pure (a % n)

/-- Balance, with remainders that are taken by `rem`. -/
def balanceBy (rem : Nat → Nat → Action Stage Nat) : Operator := fun _ inputs => do
  let outputs := (← .get).outputs.length
  let deal (next : Nat) (row : Row) : Action Stage Nat := do
    Stage.write next row
    rem (next + 1) outputs
  let _ ← Action.fold (Delivery.foldRows deal) 0 inputs

/-- Shuffle, with remainders that are taken by `rem`. -/
def shuffleBy (rem : Nat → Nat → Action Stage Nat) : Operator := fun job inputs => do
  match job.kind with
  | .shuffle columns =>
    let outputs := (← .get).outputs.length
    let pass (row : Row) : Action Stage Unit := do
      let output ← rem (SipHash.hash ((row.keyValues columns).flatMap Value.hashBytes)).toNat
        (max outputs 1)
      Stage.write output row
    Action.each (Delivery.eachRow pass) inputs
  | _ => wrongKind "shuffle" job

variable {rem : Nat → Nat → Action Stage Nat}

/-- Going through a list with actions that leave a state as it is needs to know only what these do
to this state. -/
theorem fold_congr_of_stuck {α β : Type} {f g : β → α → Action Stage β} {stage : Stage}
    (h : ∀ b a, f b a stage = g b a stage ∧ (f b a stage).2 = stage) (b : β) (as : List α) :
    Action.fold f b as stage = Action.fold g b as stage ∧
      (Action.fold f b as stage).2 = stage := by
  induction as generalizing b with
  | nil => exact ⟨rfl, rfl⟩
  | cons a as ih =>
    obtain ⟨hsame, hstuck⟩ := h b a
    rw [Action.fold_cons, Action.fold_cons]
    rcases hf : f b a stage with ⟨result, stage'⟩
    rw [hf] at hsame hstuck
    obtain rfl : stage' = stage := hstuck
    cases result with
    | error e =>
      rw [Action.bind_error hf, Action.bind_error hsame.symm]
      exact ⟨rfl, rfl⟩
    | ok b' =>
      rw [Action.bind_ok hf, Action.bind_ok hsame.symm]
      exact ih b'

theorem foldRows_congr_of_stuck {β : Type} {f g : β → Row → Action Stage β} {stage : Stage}
    (h : ∀ b row, f b row stage = g b row stage ∧ (f b row stage).2 = stage) (b : β)
    (d : Delivery) :
    d.foldRows f b stage = d.foldRows g b stage ∧ (d.foldRows f b stage).2 = stage := by
  obtain ⟨hsame, hstuck⟩ := fold_congr_of_stuck h b d.rows
  rw [Delivery.foldRows, Delivery.foldRows]
  rcases hf : Action.fold f b d.rows stage with ⟨result, stage'⟩
  rw [hf] at hsame hstuck
  obtain rfl : stage' = stage := hstuck
  cases result with
  | error e =>
    rw [Action.bind_error hf, Action.bind_error hsame.symm]
    exact ⟨rfl, rfl⟩
  | ok b' =>
    rw [Action.bind_ok hf, Action.bind_ok hsame.symm, Delivery.finish]
    refine ⟨rfl, ?_⟩
    split <;> rfl

/-- Balance never divides by zero: without outputs it does not get past a row. -/
theorem balanceBy_eq (h : Remainders rem) : balanceBy rem = balance := by
  funext job inputs stage
  rw [balanceBy, balance, Action.bind_ok (Action.get_apply stage),
    Action.bind_ok (Action.get_apply stage)]
  cases hs : stage.outputs with
  | cons w ws => simp only [h _ _ (Nat.succ_pos ws.length), List.length_cons]
  | nil =>
    have hwrite := write_without_outputs hs
    have hdeal (next : Nat) (row : Row) :
        (Stage.write next row >>= fun _ => rem (next + 1) 0) stage =
            (Stage.write next row >>= fun _ => pure ((next + 1) % 0)) stage ∧
          ((Stage.write next row >>= fun _ => rem (next + 1) 0) stage).2 = stage := by
      rw [Action.bind_error (hwrite next row), Action.bind_error (hwrite next row)]
      exact ⟨rfl, rfl⟩
    have hfold := (fold_congr_of_stuck (foldRows_congr_of_stuck hdeal) 0 inputs).1
    simp only [List.length_nil]
    rcases hrun : Action.fold (Delivery.foldRows fun next row => do
      Stage.write next row
      rem (next + 1) 0) 0 inputs stage with ⟨_ | _, stage'⟩
    · rw [Action.bind_error hrun, Action.bind_error (hfold.symm.trans hrun)]
    · rw [Action.bind_ok hrun, Action.bind_ok (hfold.symm.trans hrun)]

/-- Shuffle never divides by zero: it divides by one if there are no outputs. -/
theorem shuffleBy_eq (h : Remainders rem) : shuffleBy rem = shuffle := by
  have hroute (row : Row) (columns : List Nat) (n : Nat) :
      rem (SipHash.hash ((row.keyValues columns).flatMap Value.hashBytes)).toNat (max n 1) =
        pure (row.route columns n) := h _ _ (by omega)
  funext job inputs
  cases hk : job.kind with
  | shuffle columns => simp only [shuffleBy, shuffle, hk, hroute, pure_bind]
  | _ => simp only [shuffleBy, shuffle, hk]

/-- Moving rows keeps every row exactly once. An operator for jobs that move rows, on inputs that
come to their ends and bring rows that fit the schema, gives each of its outputs what the job owes
it. Without any outputs balance and shuffle refuse the first row, and they never divide by zero:
what that would do makes no difference to them. -/
theorem builtins_conserve {job : StageJob} {operator : Operator}
    (hget : Registry.builtins.get? job.tag = some operator) (hmoves : movesRows job.kind)
    {inputs : List Delivery} (hclean : ∀ d ∈ inputs, d.fault = none)
    (hvalid : ∀ d ∈ inputs, ∀ row ∈ d.rows, row.validate job.schema = .ok ()) :
    (∀ n, 0 < n → ∃ given, operator.Gives job inputs n given ∧
      Owes job.kind (inputs.map Delivery.rows) n given) ∧
    (job.kind = .balance ∨ (∃ columns, job.kind = .shuffle columns) →
      ∀ stage : Stage, stage.outputs = [] → operator job inputs stage =
        if inputs.flatMap Delivery.rows = [] then (.ok (), stage)
        else (.error (.taskFailed "output 0 requested, job has 0"), stage)) ∧
    ∀ rem, Remainders rem → balanceBy rem = balance ∧ shuffleBy rem = shuffle := by
  refine ⟨?_, ?_, ?_⟩
  · intro n hn
    obtain ⟨deals, h⟩ := builtins_fulfil hget hmoves hclean hn
    refine ⟨_, h.dealt.gives h.lt fun row hrow => ?_, h.owed⟩
    obtain ⟨d, hd, hrow⟩ := List.mem_flatMap.mp (h.rows row hrow)
    exact hvalid d hd row hrow
  · intro hkind stage hs
    exact refuses_first_row hget hkind hclean hs
  · intro rem hrem
    exact ⟨balanceBy_eq hrem, shuffleBy_eq hrem⟩

/-- The merge of an input that is not sorted and one without rows: the first stays as it is. -/
theorem builtins_conserve_unsorted :
    let schema : Schema := { fields := [⟨"n", .int32, false⟩] }
    let job : StageJob :=
      { taskId := default, location := default, kind := .orderByGlobal [⟨0, true⟩], inputs := [],
        outputs := [], schema, payload := [] }
    let inputs : List Delivery :=
      [{ batches := [.collected schema [⟨[.int32 3], []⟩, ⟨[.int32 1], []⟩]], fault := none },
        { batches := [], fault := none }]
    let done := merge.perform job inputs [.create {} schema 2]
    done.result = .ok () ∧ ∃ w, done.outputs = [w] ∧
      Brings w.frames.sink.bytes [⟨[.int32 3], []⟩, ⟨[.int32 1], []⟩] := by
  intro schema job inputs done
  obtain ⟨given, hgives, rows, -, hperm, hsub, hgiven⟩ :=
    (@builtins_conserve job merge rfl rfl inputs (by decide) (by decide)).1 1 Nat.one_pos
  have hrows : [⟨[.int32 3], []⟩, ⟨[.int32 1], []⟩] = rows :=
    (hsub _ List.mem_cons_self).eq_of_length hperm.length_eq.symm
  have hfirst : given 0 = [⟨[.int32 3], []⟩, ⟨[.int32 1], []⟩] :=
    (hgiven 0 Nat.one_pos).trans hrows.symm
  have hroomy : RowWriter.Roomy schema (given 0) (.create {} schema 2) := by
    rw [hfirst]
    exact ⟨rfl, rfl, fun _ _ => rfl, by decide +kernel, by decide, by decide +kernel⟩
  obtain ⟨hok, hlength, hbrings⟩ := hgives.brought [.create {} schema 2] rfl (by
    intro i w hi
    obtain ⟨rfl, rfl⟩ : i = 0 ∧ _ = w := by simpa [List.getElem?_singleton] using hi
    exact hroomy)
  obtain ⟨w, hw⟩ := List.length_eq_one_iff.mp hlength
  refine ⟨hok, w, hw, ?_⟩
  rw [← hfirst]
  exact hbrings 0 w (by rw [hw]; rfl)

end Operator

end StagedQuery

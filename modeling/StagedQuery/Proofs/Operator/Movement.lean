import StagedQuery.Proofs.Dealing
import StagedQuery.Proofs.Operator.Contract

/-!
# Where rows go

The operators that move rows deal them out: each row goes to some output, or to several, in the
order in which the rows come (`Stage.deal`). When that succeeds, every output has been given the
rows that went there and nothing else (`Stage.deal_eq_ok`); and when the outputs could be closed,
the stream of each brings these rows (`Operator.Deals.brings`). What is left to say of an operator
is how it deals: duplicate every row to every output, balance by position, shuffle by key.
-/

namespace StagedQuery

open scoped List

/-! ### Dealing -/

namespace Stage

/-- The rows that go to an output. -/
def dealtTo (i : Nat) (deals : List (Nat × Row)) : List Row :=
  deals.flatMap fun d => if d.1 = i then [d.2] else []

/-- Write each row to its output. -/
def deal (deals : List (Nat × Row)) : Action Stage Unit :=
  Action.each (fun d => write d.1 d.2) deals

@[simp] theorem dealtTo_nil (i : Nat) : dealtTo i [] = [] := rfl

theorem dealtTo_cons_self (i : Nat) (row : Row) (deals : List (Nat × Row)) :
    dealtTo i ((i, row) :: deals) = row :: dealtTo i deals := by
  simp [dealtTo]

theorem dealtTo_cons_of_ne {i j : Nat} (h : j ≠ i) (row : Row) (deals : List (Nat × Row)) :
    dealtTo i ((j, row) :: deals) = dealtTo i deals := by
  simp [dealtTo, h]

theorem write_eq_ok {i : Nat} {row : Row} {stage stage' : Stage}
    (h : write i row stage = (.ok (), stage')) :
    ∃ w w', stage.outputs[i]? = some w ∧ RowWriter.writeRow row w = (.ok (), w') ∧
      stage' = { stage with outputs := stage.outputs.set i w' } := by
  cases hw : stage.outputs[i]? with
  | none =>
    simp only [write, onOutput, Action.zoomAt, hw] at h
    cases h
  | some w =>
    rw [write, onOutput_apply hw] at h
    rcases hrow : RowWriter.writeRow row w with ⟨result, w'⟩
    rw [hrow] at h
    cases h
    exact ⟨w, w', rfl, hrow, rfl⟩

theorem length_deal {deals : List (Nat × Row)} {stage stage' : Stage}
    (h : deal deals stage = (.ok (), stage')) : stage'.outputs.length = stage.outputs.length := by
  have hwrites : Action.Writes (deal deals) :=
    Action.writes_each (fun (d : Nat × Row) => Action.writes_write d.1 d.2) deals
  have hlength := (hwrites stage).length_eq
  rwa [h] at hlength

/-- When rows were dealt out, every output was given those that go there. -/
theorem deal_eq_ok {deals : List (Nat × Row)} {stage stage' : Stage}
    (h : deal deals stage = (.ok (), stage')) {i : Nat} {w : RowWriter}
    (hw : stage.outputs[i]? = some w) :
    ∃ w', stage'.outputs[i]? = some w' ∧
      RowWriter.writeRows (dealtTo i deals) w = (.ok (), w') := by
  induction deals generalizing stage w with
  | nil =>
    cases h
    exact ⟨w, hw, rfl⟩
  | cons d deals ih =>
    obtain ⟨j, row⟩ := d
    obtain ⟨⟨⟩, t, hfirst, hrest⟩ := Action.bind_eq_ok.mp h
    obtain ⟨v, v', hv, hrow, rfl⟩ := write_eq_ok hfirst
    by_cases hij : j = i
    · subst hij
      obtain rfl := Option.some.inj (hv.symm.trans hw)
      have hlt : j < stage.outputs.length := (List.getElem?_eq_some_iff.mp hv).1
      obtain ⟨w', hget, hrows⟩ := ih hrest (w := v') (List.getElem?_set_self hlt)
      refine ⟨w', hget, ?_⟩
      rw [dealtTo_cons_self, RowWriter.writeRows, Action.each_cons, Action.bind_ok hrow]
      exact hrows
    · have hsame : (stage.outputs.set j v')[i]? = some w := by rwa [List.getElem?_set_ne hij]
      obtain ⟨w', hget, hrows⟩ := ih hrest hsame
      exact ⟨w', hget, by rwa [dealtTo_cons_of_ne hij]⟩

/-- Rows can be dealt out if every output takes those that go there. -/
theorem exists_deal {deals : List (Nat × Row)} {stage : Stage}
    (ht : ∀ d ∈ deals, d.1 < stage.outputs.length)
    (hw : ∀ (i : Nat) (w : RowWriter), stage.outputs[i]? = some w →
      ∃ w', RowWriter.writeRows (dealtTo i deals) w = (.ok (), w')) :
    ∃ stage', deal deals stage = (.ok (), stage') := by
  induction deals generalizing stage with
  | nil => exact ⟨stage, rfl⟩
  | cons d deals ih =>
    obtain ⟨j, row⟩ := d
    obtain ⟨hj, hrest⟩ := List.forall_mem_cons.mp ht
    have hget := List.getElem?_eq_getElem hj
    obtain ⟨w', hrows⟩ := hw j _ hget
    rw [dealtTo_cons_self] at hrows
    obtain ⟨⟨⟩, v, hrow, hlater⟩ := Action.bind_eq_ok.mp hrows
    have hwrite : write j row stage =
        (.ok (), { stage with outputs := stage.outputs.set j v }) := by
      rw [write, onOutput_apply hget, hrow]
    rw [deal, Action.each_cons, Action.bind_ok hwrite]
    refine ih (by simpa using hrest) ?_
    intro i w hi
    by_cases hij : j = i
    · subst hij
      rw [List.getElem?_set_self hj] at hi
      cases hi
      exact ⟨w', hlater⟩
    · rw [List.getElem?_set_ne hij] at hi
      obtain ⟨u, hu⟩ := hw i w hi
      exact ⟨u, by rwa [dealtTo_cons_of_ne hij] at hu⟩

theorem dealtTo_eq (i : Nat) (deals : List (Nat × Row)) :
    dealtTo i deals = (deals.filter fun d => d.1 = i).map (·.2) := by
  induction deals with
  | nil => rfl
  | cons d deals ih =>
    by_cases hd : d.1 = i <;> simp [dealtTo, hd, ← ih]

/-- No row is lost and none is dealt twice: the outputs together have what was dealt. -/
theorem dealt_perm {n : Nat} {deals : List (Nat × Row)} (h : ∀ d ∈ deals, d.1 < n) :
    (List.range n).flatMap (dealtTo · deals) ~ deals.map (·.2) := by
  have hall := (perm_hands h).map (·.2)
  rw [List.map_flatMap] at hall
  simpa only [dealtTo_eq] using hall

end Stage

/-! ### Going through the inputs -/

namespace Delivery

variable {β : Type} {d : Delivery} {ds : List Delivery}

theorem finish_clean (h : d.fault = none) : d.finish = pure () := by
  rw [finish, h]

theorem eachRow_clean (h : d.fault = none) (f : Row → Action Stage Unit) :
    d.eachRow f = Action.each f d.rows := by
  rw [eachRow, finish_clean h]
  exact bind_pure_unit

theorem foldRows_clean (h : d.fault = none) (f : β → Row → Action Stage β) (b : β) :
    d.foldRows f b = Action.fold f b d.rows := by
  rw [foldRows, finish_clean h]
  simp only [pure_bind, bind_pure]

/-- Going through inputs that end well is going through their rows. -/
theorem each_clean (h : ∀ d ∈ ds, d.fault = none) (f : Row → Action Stage Unit) :
    Action.each (Delivery.eachRow f) ds = Action.each f (ds.flatMap Delivery.rows) := by
  induction ds with
  | nil => rfl
  | cons d ds ih =>
    obtain ⟨hd, hds⟩ := List.forall_mem_cons.mp h
    rw [Action.each_cons, eachRow_clean hd, ih hds, List.flatMap_cons, Action.each_append]

theorem fold_clean (h : ∀ d ∈ ds, d.fault = none) (f : β → Row → Action Stage β) (b : β) :
    Action.fold (Delivery.foldRows f) b ds = Action.fold f b (ds.flatMap Delivery.rows) := by
  induction ds generalizing b with
  | nil => rfl
  | cons d ds ih =>
    obtain ⟨hd, hds⟩ := List.forall_mem_cons.mp h
    simp only [Action.fold_cons, foldRows_clean hd, ih hds, List.flatMap_cons, Action.fold_append]

end Delivery

namespace Operator

/-! ### How operators deal -/

/-- On these inputs, an operator with `n` outputs deals rows out like this. -/
def Deals (operator : Operator) (job : StageJob) (inputs : List Delivery) (n : Nat)
    (deals : List (Nat × Row)) : Prop :=
  ∀ stage, stage.outputs.length = n → operator job inputs stage = Stage.deal deals stage

/-- On inputs that come to their ends, an operator with `n` outputs deals their rows out like
this. -/
def DealsRows (operator : Operator) (job : StageJob) (n : Nat)
    (deals : List Row → List (Nat × Row)) : Prop :=
  ∀ inputs : List Delivery, (∀ d ∈ inputs, d.fault = none) →
    operator.Deals job inputs n (deals (inputs.flatMap Delivery.rows))

variable {job : StageJob} {n : Nat}

theorem duplicate_deals (job : StageJob) (n : Nat) :
    duplicate.DealsRows job n (·.flatMap fun row => (List.range n).map (·, row)) := by
  intro inputs h stage hn
  have hdeal (rows : List Row) :
      Stage.deal (rows.flatMap fun row => (List.range n).map (·, row)) =
        Action.each (fun row => Action.each (fun i => Stage.write i row) (List.range n)) rows := by
    rw [Stage.deal, Action.each_flatMap]
    simp only [Action.each_map]
  rw [duplicate, Action.bind_ok (Action.get_apply stage), hn, hdeal, ← Delivery.each_clean h]

theorem shuffle_deals {columns : List Nat} (hk : job.kind = .shuffle columns) (n : Nat) :
    shuffle.DealsRows job n (·.map fun row => (row.route columns n, row)) := by
  intro inputs h stage hn
  rw [shuffle, hk, Stage.deal, Action.each_map, ← Delivery.each_clean h, ← hn]
  exact Action.bind_ok (Action.get_apply stage)

/-- Rows in turn, from some position on. -/
def inTurn (n start : Nat) (rows : List Row) : List (Nat × Row) :=
  (rows.zipIdx start).map fun (row, i) => (i % n, row)

theorem inTurn_cons (n start : Nat) (row : Row) (rows : List Row) :
    inTurn n start (row :: rows) = (start % n, row) :: inTurn n (start + 1) rows := rfl

theorem fold_inTurn (n start : Nat) (rows : List Row) :
    (Action.fold (fun next row => do Stage.write next row; pure ((next + 1) % n)) (start % n)
      rows >>= fun _ => pure ()) = Stage.deal (inTurn n start rows) := by
  induction rows generalizing start with
  | nil => rfl
  | cons row rows ih =>
    simp only [Action.fold_cons, bind_assoc, pure_bind, Nat.mod_add_mod]
    rw [ih, inTurn_cons, Stage.deal, Stage.deal, Action.each_cons]

theorem balance_deals (job : StageJob) (n : Nat) : balance.DealsRows job n (inTurn n 0) := by
  intro inputs h stage hn
  rw [balance, Action.bind_ok (Action.get_apply stage), hn, ← fold_inTurn, Nat.zero_mod,
    ← Delivery.fold_clean h]

/-- A file that is a number holds the row of this number. -/
theorem scanNumber_of_number {file : String} {n : Int64} (h : numberOfName? file = some n) :
    scanNumber file = Stage.write 0 { vals := [.int64 n] } := by
  have hhang : file ≠ "hang" := by
    rintro rfl
    cases h
  have hbad : file ≠ "bad" := by
    rintro rfl
    cases h
  rw [scanNumber, if_neg hhang, if_neg hbad, h]

theorem each_scanNumber {files : List String} {rows : List Row}
    (h : List.Forall₂ (fun file row => scanNumber file = Stage.write 0 row) files rows) :
    Action.each scanNumber files = Action.each (Stage.write 0) rows := by
  induction h with
  | nil => rfl
  | cons hfile _ ih => rw [Action.each_cons, Action.each_cons, hfile, ih]

/-- A scan of numbers deals a row for each file to its only output. -/
theorem scanNumbers_deals {table : String} {files : List String} {rows : List Row}
    (hk : job.kind = .scan table [] files)
    (hf : List.Forall₂ (fun file row => scanNumber file = Stage.write 0 row) files rows)
    (inputs : List Delivery) (n : Nat) :
    scanNumbers.Deals job inputs n (rows.map fun row => (0, row)) := by
  intro stage _
  rw [scanNumbers, hk, Stage.deal, Action.each_map, ← each_scanNumber hf]
  exact congrArg (fun files => Action.each scanNumber files stage) (List.append_nil files)

/-! ### What the outputs get -/

/-- What goes to an output is a part of what is dealt. -/
theorem dealtTo_sublist (i : Nat) (deals : List (Nat × Row)) :
    (Stage.dealtTo i deals).Sublist (deals.map (·.2)) := by
  induction deals with
  | nil => exact .slnil
  | cons d deals ih =>
    obtain ⟨j, row⟩ := d
    by_cases hij : j = i
    · rw [hij, Stage.dealtTo_cons_self]
      exact ih.cons_cons row
    · rw [Stage.dealtTo_cons_of_ne hij]
      exact ih.cons row

/-- Duplicate deals every row to every output. -/
theorem dealtTo_duplicate {i n : Nat} (hi : i < n) (rows : List Row) :
    Stage.dealtTo i (rows.flatMap fun row => (List.range n).map (·, row)) = rows := by
  have hone (row : Row) : Stage.dealtTo i ((List.range n).map (·, row)) = [row] := by
    rw [Stage.dealtTo, List.flatMap_map]
    exact flatMap_range_single hi row
  rw [Stage.dealtTo, List.flatMap_assoc]
  exact (List.flatMap_congr fun row _ => hone row).trans (List.flatMap_singleton' rows)

/-- Shuffle deals a row to the output that its key selects. -/
theorem dealtTo_shuffle (i : Nat) (route : Row → Nat) (rows : List Row) :
    Stage.dealtTo i (rows.map fun row => (route row, row)) = rows.filter (route · = i) := by
  induction rows with
  | nil => rfl
  | cons row rows ih =>
    by_cases hi : route row = i
    · rw [List.map_cons, List.filter_cons_of_pos (by simpa using hi), ← ih]
      exact hi ▸ Stage.dealtTo_cons_self (route row) row _
    · rw [List.map_cons, Stage.dealtTo_cons_of_ne hi, List.filter_cons_of_neg (by simpa using hi),
        ih]

theorem route_lt {n : Nat} (hn : 0 < n) (row : Row) (columns : List Nat) :
    row.route columns n < n := by
  rw [Row.route, Nat.max_eq_left hn]
  exact Nat.mod_lt _ hn

theorem inTurn_lt {n start : Nat} {rows : List Row} (hn : 0 < n) :
    ∀ d ∈ inTurn n start rows, d.1 < n := by
  intro d hd
  obtain ⟨pair, -, rfl⟩ := List.mem_map.mp hd
  exact Nat.mod_lt _ hn

theorem map_snd_inTurn (n start : Nat) (rows : List Row) :
    (inTurn n start rows).map (·.2) = rows := by
  rw [inTurn, List.map_map]
  exact List.zipIdx_map_fst start rows

end Operator

/-! ### Closing the outputs -/

theorem closeOutputs_eq_ok {ws ws' : List RowWriter} (h : closeOutputs ws = (.ok (), ws')) :
    List.Forall₂ (fun w w' => RowWriter.close w = (.ok (), w')) ws ws' := by
  induction ws generalizing ws' with
  | nil =>
    cases h
    exact .nil
  | cons w ws ih =>
    rw [closeOutputs] at h
    rcases hw : RowWriter.close w with ⟨e | ⟨⟩, w'⟩
    · rw [hw] at h
      cases h
    · rw [hw] at h
      rcases hrest : closeOutputs ws with ⟨result, rest⟩
      rw [hrest] at h
      cases h
      exact .cons hw (ih hrest)

theorem closeOutputs_eq {ws : List RowWriter} (h : ∀ w ∈ ws, (RowWriter.close w).1 = .ok ()) :
    closeOutputs ws = (.ok (), ws.map fun w => (RowWriter.close w).2) := by
  induction ws with
  | nil => rfl
  | cons w ws ih =>
    obtain ⟨hw, hws⟩ := List.forall_mem_cons.mp h
    rcases hclose : RowWriter.close w with ⟨result, w'⟩
    rw [hclose] at hw
    obtain rfl : result = .ok () := hw
    rw [closeOutputs, hclose, ih hws, List.map_cons, hclose]

/-- The stream of a writer that was blank, given some rows and closed, brings these rows. -/
theorem RowWriter.Blank.brings {schema : Schema} {w w' w'' : RowWriter} {rows : List Row}
    (h : w.Blank schema) (hrows : writeRows rows w = (.ok (), w'))
    (hclose : close w' = (.ok (), w'')) : Brings w''.frames.sink.bytes rows := by
  obtain ⟨b, appended, hrecords, haccounts⟩ := tried_records h.records (rows.map some)
  rw [each_map_some, hrows] at hrecords haccounts
  obtain ⟨happended, hmade⟩ := haccounts.whole rfl
  obtain ⟨hpending, hlast, stream, hbytes, hended⟩ := close_records hrecords hclose
  have hwhole : ∀ a ∈ b.attempts ++ w'.attempt.toList, a.Whole schema := by
    rw [haccounts.attempts_eq, List.nil_append]
    exact List.forall_mem_append.mpr ⟨hmade, fun a ha => hlast a (Option.mem_toList.mp ha)⟩
  have hall : (b.attempts ++ w'.attempt.toList).flatMap (·.rows) = rows := by
    rw [haccounts.attempts_eq, List.nil_append, List.flatMap_append, ← hpending,
      ← haccounts.rows_eq, happended, List.nil_append]
    rw [List.reduceOption, List.filterMap_map, Function.id_comp, List.filterMap_some]
  have hbrings := hended.brings hwhole
  rw [hall] at hbrings
  rwa [hbytes, List.nil_append]

namespace Operator

variable {operator : Operator} {job : StageJob} {inputs : List Delivery} {writers : List RowWriter}
  {deals : List (Nat × Row)}

/-- Work has succeeded when the operator has, and every output could be closed. -/
theorem perform_eq_ok (hok : (operator.perform job inputs writers).result = .ok ()) :
    ∃ stage, operator job inputs { outputs := writers } = (.ok (), stage) ∧
      closeOutputs stage.outputs = (.ok (), (operator.perform job inputs writers).outputs) := by
  rw [perform] at hok ⊢
  split at hok
  · rename_i stage hrun
    exact ⟨stage, hrun, Prod.ext hok rfl⟩
  · cases hok
  · cases hok

/-- The outputs of an operator that deals rows out bring what was dealt to them, when its work has
succeeded. -/
theorem Deals.brings (h : operator.Deals job inputs writers.length deals)
    (hw : ∀ w ∈ writers, ∃ schema, w.Blank schema)
    (hok : (operator.perform job inputs writers).result = .ok ()) {i : Nat} {w : RowWriter}
    (hi : (operator.perform job inputs writers).outputs[i]? = some w) :
    Brings w.frames.sink.bytes (Stage.dealtTo i deals) := by
  obtain ⟨stage, hrun, hclosed⟩ := perform_eq_ok hok
  have hdeal := (h _ rfl).symm.trans hrun
  have hcloses := List.forall₂_iff_get.mp (closeOutputs_eq_ok hclosed)
  have hlength := Stage.length_deal hdeal
  obtain ⟨hlt, rfl⟩ := List.getElem?_eq_some_iff.mp hi
  have hlt' : i < stage.outputs.length := hcloses.1 ▸ hlt
  have hlt'' : i < writers.length := hlength ▸ hlt'
  obtain ⟨w', hget, hrows⟩ := Stage.deal_eq_ok hdeal (List.getElem?_eq_getElem hlt'')
  rw [← (List.getElem?_eq_some_iff.mp hget).2] at hrows
  obtain ⟨schema, hblank⟩ := hw _ (List.getElem_mem hlt'')
  exact hblank.brings hrows (hcloses.2 i hlt' hlt)

/-- The work of an operator that deals rows out succeeds if every output takes those that go there
and can be closed then. -/
theorem Deals.succeeds (h : operator.Deals job inputs writers.length deals)
    (ht : ∀ d ∈ deals, d.1 < writers.length) {P : Nat → RowWriter → Prop}
    (hw : ∀ (i : Nat) (w : RowWriter), writers[i]? = some w →
      ∃ w' w'', RowWriter.writeRows (Stage.dealtTo i deals) w = (.ok (), w') ∧
        RowWriter.close w' = (.ok (), w'') ∧ P i w'') :
    (operator.perform job inputs writers).result = .ok () ∧
      ∀ (i : Nat) (w : RowWriter), (operator.perform job inputs writers).outputs[i]? = some w →
        P i w := by
  have htakes (i : Nat) (w : RowWriter) (hi : writers[i]? = some w) :
      ∃ w', RowWriter.writeRows (Stage.dealtTo i deals) w = (.ok (), w') := by
    obtain ⟨w', -, hrows, -⟩ := hw i w hi
    exact ⟨w', hrows⟩
  obtain ⟨stage, hdeal⟩ :
      ∃ stage, Stage.deal deals { outputs := writers } = (.ok (), stage) :=
    Stage.exists_deal ht htakes
  have hrun : operator job inputs { outputs := writers } = (.ok (), stage) := (h _ rfl).trans hdeal
  have hlength := Stage.length_deal hdeal
  have hclose (i : Nat) (w : RowWriter) (hi : stage.outputs[i]? = some w) :
      (RowWriter.close w).1 = .ok () ∧ P i (RowWriter.close w).2 := by
    have hlt : i < writers.length := hlength ▸ (List.getElem?_eq_some_iff.mp hi).1
    obtain ⟨w', w'', hrows, hclosed, hp⟩ := hw i _ (List.getElem?_eq_getElem hlt)
    obtain ⟨v, hv, hrows'⟩ := Stage.deal_eq_ok hdeal (List.getElem?_eq_getElem hlt)
    obtain rfl := Option.some.inj (hi.symm.trans hv)
    rw [hrows] at hrows'
    cases hrows'
    rw [hclosed]
    exact ⟨rfl, hp⟩
  have hperform : operator.perform job inputs writers =
      { result := .ok (), outputs := stage.outputs.map fun w => (RowWriter.close w).2
        logs := stage.logs } := by
    rw [perform, hrun]
    dsimp only
    rw [closeOutputs_eq fun w hmem => ?_]
    obtain ⟨i, hi⟩ := List.mem_iff_getElem?.mp hmem
    exact (hclose i w hi).1
  rw [hperform]
  refine ⟨rfl, fun i w hi => ?_⟩
  rw [List.getElem?_map] at hi
  obtain ⟨v, hv, rfl⟩ := Option.map_eq_some_iff.mp hi
  exact (hclose i v hv).2

end Operator

end StagedQuery

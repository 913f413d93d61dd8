import Mathlib.Logic.Relation
import StagedQuery.Executor.Work
import StagedQuery.Operator.Registry
import StagedQuery.Proofs.Job.StageJob
import StagedQuery.Proofs.Operator.Order
import StagedQuery.Proofs.Stream.Unended

/-!
# What operators owe the executor

An executor relies on two things. An operator succeeds only if it has come to the end of every
input, so that no input is cut short unnoticed (`Operator.ReadsToEnd`); and it gets at its outputs
only by writing rows and flushing, so that whether a stream is ended is up to the executor
(`Operator.OnlyWrites`). The built-in operators keep both, whatever their job, their inputs and
their outputs are (`Registry.builtins_contract`).

So an operator that fails leaves no output that has ended: the executor aborts them all, and every
reader of what is there comes to an error (`Operator.perform_unended`).
-/

namespace StagedQuery

/-! ### Outputs that are only written to -/

/-- The writer after some more steps, which may have failed. -/
def RowWriter.Written : RowWriter → RowWriter → Prop :=
  Relation.ReflTransGen fun w w' => ∃ s, w' = (RowWriter.runStep s w).2

namespace RowWriter

theorem Written.records {w w' : RowWriter} (h : Written w w') {schema : Schema} {start : Bytes}
    {b : Books} (hb : Records schema start w b) : ∃ b', Records schema start w' b' := by
  induction h with
  | refl => exact ⟨b, hb⟩
  | tail _ hstep ih =>
    obtain ⟨s, rfl⟩ := hstep
    obtain ⟨b', hb'⟩ := ih
    obtain ⟨b'', -, hb'', -⟩ := step_records hb' s
    exact ⟨b'', hb''⟩

theorem written_writeRow (row : Row) (w : RowWriter) : Written w (writeRow row w).2 :=
  .single ⟨some row, rfl⟩

theorem written_writeRows (rows : List Row) (w : RowWriter) : Written w (writeRows rows w).2 := by
  induction rows generalizing w with
  | nil => exact .refl
  | cons row rows ih =>
    have hrow := written_writeRow row w
    rw [writeRows, Action.each_cons]
    rcases h : writeRow row w with ⟨e | ⟨⟩, w'⟩
    · rw [h] at hrow
      rwa [Action.bind_error h]
    · rw [h] at hrow
      rw [Action.bind_ok h]
      exact hrow.trans (ih w')

/-- What is on the transport of a writer that was not closed has not ended. -/
theorem Records.unended {schema : Schema} {w : RowWriter} {b : Books}
    (h : Records schema [] w b) : Unended w.frames.sink.bytes := by
  cases hsent : w.schemaSent with
  | false =>
    rw [(h.unsent hsent).2]
    exact .nil
  | true =>
    have hbytes := h.sent hsent
    rw [List.nil_append] at hbytes
    refine ⟨sentMessages schema b.attempts, ?_, hbytes⟩
    refine List.forall_mem_cons.mpr ⟨h.announced hsent, ?_⟩
    intro m hm
    obtain ⟨a, ha, hm⟩ := List.mem_flatMap.mp hm
    exact (h.made a ha).framed m hm

end RowWriter

namespace Stage

/-- The stage after its outputs were written to. -/
structure Written (s s' : Stage) : Prop where
  length_eq : s'.outputs.length = s.outputs.length
  written : ∀ (i : Nat) (w' : RowWriter), s'.outputs[i]? = some w' →
    ∃ w : RowWriter, s.outputs[i]? = some w ∧ w.Written w'

theorem Written.refl (s : Stage) : s.Written s := ⟨rfl, fun _ w h => ⟨w, h, .refl⟩⟩

theorem Written.trans {s t u : Stage} (h : s.Written t) (h' : t.Written u) : s.Written u where
  length_eq := h'.length_eq.trans h.length_eq
  written := by
    intro i w'' hw''
    obtain ⟨w', hw', hlater⟩ := h'.written i w'' hw''
    obtain ⟨w, hw, hfirst⟩ := h.written i w' hw'
    exact ⟨w, hw, hfirst.trans hlater⟩

end Stage

namespace Action

variable {α β : Type}

/-- An action that only writes to the outputs. -/
def Writes (x : Action Stage α) : Prop := ∀ s : Stage, s.Written (x s).2

theorem writes_pure (a : α) : Writes (pure a) := fun s => .refl s

theorem writes_get : Writes get := fun s => .refl s

theorem writes_fail (e : Error) : Writes (fail e : Action Stage α) := fun s => .refl s

theorem writes_ofExcept (x : Except Error α) : Writes (ofExcept x) := by
  intro s
  cases x <;> exact .refl s

theorem writes_log (level : LogLevel) (message : String) : Writes (Stage.log level message) :=
  fun _ => ⟨rfl, fun _ w h => ⟨w, h, .refl⟩⟩

theorem Writes.bind {x : Action Stage α} {f : α → Action Stage β} (hx : Writes x)
    (hf : ∀ a, Writes (f a)) : Writes (x >>= f) := by
  intro s
  have hfirst := hx s
  rcases h : x s with ⟨e | a, t⟩
  · rw [h] at hfirst
    rwa [bind_error h]
  · rw [h] at hfirst
    rw [bind_ok h]
    exact hfirst.trans (hf a t)

theorem writes_each {f : α → Action Stage Unit} (hf : ∀ a, Writes (f a)) :
    (as : List α) → Writes (each f as)
  | [] => writes_pure ()
  | a :: as => (hf a).bind fun _ => writes_each hf as

theorem writes_fold {f : β → α → Action Stage β} (hf : ∀ b a, Writes (f b a)) :
    (b : β) → (as : List α) → Writes (fold f b as)
  | b, [] => writes_pure b
  | b, a :: as => (hf b a).bind fun b => writes_fold hf b as

theorem writes_onOutput (i : Nat) {x : Action RowWriter Unit}
    (hx : ∀ w : RowWriter, w.Written (x w).2) :
    Writes (Stage.onOutput i x) := by
  intro s
  cases h : s.outputs[i]? with
  | none =>
    simp only [Stage.onOutput, zoomAt, h]
    exact .refl s
  | some w =>
    rw [Stage.onOutput_apply h]
    refine ⟨List.length_set, ?_⟩
    intro j w' hw'
    by_cases hij : i = j
    · subst hij
      have hi : i < s.outputs.length := (List.getElem?_eq_some_iff.mp h).1
      rw [List.getElem?_set_self hi] at hw'
      cases hw'
      exact ⟨w, h, hx w⟩
    · rw [List.getElem?_set_ne hij] at hw'
      exact ⟨w', hw', .refl⟩

theorem writes_write (i : Nat) (row : Row) : Writes (Stage.write i row) :=
  writes_onOutput i (RowWriter.written_writeRow row)

end Action

namespace Delivery

open StagedQuery.Action

theorem writes_finish (d : Delivery) : Writes d.finish := by
  rw [finish]
  split
  · exact writes_fail _
  · exact writes_pure ()

theorem writes_foldRows {β : Type} {f : β → Row → Action Stage β} (hf : ∀ b row, Writes (f b row))
    (b : β) (d : Delivery) : Writes (d.foldRows f b) :=
  (writes_fold hf b d.rows).bind fun b => d.writes_finish.bind fun _ => writes_pure b

theorem writes_eachRow {f : Row → Action Stage Unit} (hf : ∀ row, Writes (f row)) (d : Delivery) :
    Writes (d.eachRow f) :=
  (writes_each hf d.rows).bind fun _ => d.writes_finish

theorem writes_eachBatch {f : RowGroup → Action Stage Unit} (hf : ∀ g, Writes (f g))
    (d : Delivery) : Writes (d.eachBatch f) :=
  (writes_each hf d.batches).bind fun _ => d.writes_finish

/-! ### Inputs that are read to their end -/

theorem finish_eq_ok {d : Delivery} {s s' : Stage} (h : d.finish s = (.ok (), s')) :
    d.fault = none := by
  cases hfault : d.fault with
  | none => rfl
  | some e =>
    rw [finish, hfault] at h
    cases h

theorem eachRow_eq_ok {f : Row → Action Stage Unit} {d : Delivery} {s s' : Stage}
    (h : d.eachRow f s = (.ok (), s')) : d.fault = none := by
  obtain ⟨_, t, -, hfinish⟩ := bind_eq_ok.mp h
  exact finish_eq_ok hfinish

theorem eachBatch_eq_ok {f : RowGroup → Action Stage Unit} {d : Delivery} {s s' : Stage}
    (h : d.eachBatch f s = (.ok (), s')) : d.fault = none := by
  obtain ⟨_, t, -, hfinish⟩ := bind_eq_ok.mp h
  exact finish_eq_ok hfinish

theorem foldRows_eq_ok {β : Type} {f : β → Row → Action Stage β} {b b' : β} {d : Delivery}
    {s s' : Stage} (h : d.foldRows f b s = (.ok b', s')) : d.fault = none := by
  obtain ⟨_, t, -, h⟩ := bind_eq_ok.mp h
  obtain ⟨_, u, hfinish, -⟩ := bind_eq_ok.mp h
  exact finish_eq_ok hfinish

theorem allRows_eq_ok {ds : List Delivery} {rows : List Row} (h : allRows ds = .ok rows) :
    ∀ d ∈ ds, d.fault = none := by
  induction ds generalizing rows with
  | nil => simp
  | cons d ds ih =>
    rw [allRows] at h
    split at h
    · cases h
    · rename_i hfault
      obtain ⟨rest, hrest, -⟩ := Result.bind_eq_ok.mp h
      exact List.forall_mem_cons.mpr ⟨hfault, ih hrest⟩

end Delivery

namespace Action

variable {σ α β : Type}

theorem each_eq_ok {f : α → Action σ Unit} {as : List α} {s s' : σ}
    (h : each f as s = (.ok (), s')) : ∀ a ∈ as, ∃ t t', f a t = (.ok (), t') := by
  induction as generalizing s with
  | nil => simp
  | cons a as ih =>
    obtain ⟨⟨⟩, t, ha, hrest⟩ := bind_eq_ok.mp h
    exact List.forall_mem_cons.mpr ⟨⟨s, t, ha⟩, ih hrest⟩

theorem fold_eq_ok {f : β → α → Action σ β} {as : List α} {b b' : β} {s s' : σ}
    (h : fold f b as s = (.ok b', s')) : ∀ a ∈ as, ∃ c c' t t', f c a t = (.ok c', t') := by
  induction as generalizing b s with
  | nil => simp
  | cons a as ih =>
    obtain ⟨c, t, ha, hrest⟩ := bind_eq_ok.mp h
    exact List.forall_mem_cons.mpr ⟨⟨b, c, s, t, ha⟩, ih hrest⟩

end Action

/-- A merge without an error has come to the end of every feed. -/
theorem Feed.merge_fault {keys : List SortKey} {feeds : List Feed}
    (h : (merge keys feeds).fault = none) : ∀ f ∈ feeds, f.fault = none := by
  fun_induction merge keys feeds with
  | case1 feeds e hstalled => cases h
  | case2 feeds hstalled hnone =>
    intro f hf
    have hrows : f.rows = [] := List.flatMap_eq_nil_iff.mp (takeLeast?_eq_none hnone) f hf
    have hfault := List.findSome?_eq_none_iff.mp hstalled f hf
    rwa [hrows, List.isEmpty_nil, if_pos rfl] at hfault
  | case3 feeds hstalled row rest hsome merged ih =>
    obtain ⟨before, feed, after, rfl, rfl, -⟩ := takeLeast?_eq_some hsome
    have hrest := ih h
    simp only [List.forall_mem_append, List.forall_mem_cons] at hrest ⊢
    exact hrest

/-! ### The contract -/

namespace Operator

/-- The operator succeeds on a job only if every input has come to its end. -/
def ReadsToEnd (operator : Operator) (job : StageJob) : Prop :=
  ∀ inputs stage stage', inputs.length = job.inputs.length →
    operator job inputs stage = (.ok (), stage') → ∀ d ∈ inputs, d.fault = none

/-- The operator gets at the outputs of a job only by writing to them. -/
def OnlyWrites (operator : Operator) (job : StageJob) : Prop :=
  ∀ inputs, Action.Writes (operator job inputs)

open StagedQuery.Action

variable {job : StageJob} {inputs : List Delivery} {stage stage' : Stage}

theorem duplicate_eq_ok (h : duplicate job inputs stage = (.ok (), stage')) :
    ∀ d ∈ inputs, d.fault = none := by
  obtain ⟨_, s, -, h⟩ := bind_eq_ok.mp h
  intro d hd
  obtain ⟨t, t', hone⟩ := each_eq_ok h d hd
  exact Delivery.eachRow_eq_ok hone

theorem balance_eq_ok (h : balance job inputs stage = (.ok (), stage')) :
    ∀ d ∈ inputs, d.fault = none := by
  obtain ⟨_, s, -, h⟩ := bind_eq_ok.mp h
  obtain ⟨next, s, hfold, -⟩ := bind_eq_ok.mp h
  intro d hd
  obtain ⟨c, c', t, t', hone⟩ := fold_eq_ok hfold d hd
  exact Delivery.foldRows_eq_ok hone

theorem shuffle_eq_ok (h : shuffle job inputs stage = (.ok (), stage')) :
    ∀ d ∈ inputs, d.fault = none := by
  cases hkind : job.kind with
  | shuffle columns =>
    rw [shuffle, hkind] at h
    obtain ⟨_, s, -, h⟩ := bind_eq_ok.mp h
    intro d hd
    obtain ⟨t, t', hone⟩ := each_eq_ok h d hd
    exact Delivery.eachRow_eq_ok hone
  | _ =>
    rw [shuffle, hkind] at h
    cases h

theorem concatenate_eq_ok (h : concatenate job inputs stage = (.ok (), stage')) :
    ∀ d ∈ inputs, d.fault = none := by
  intro d hd
  obtain ⟨t, t', hone⟩ := each_eq_ok h d hd
  exact Delivery.eachBatch_eq_ok hone

theorem limit_eq_ok (h : limit job inputs stage = (.ok (), stage')) :
    ∀ d ∈ inputs, d.fault = none := by
  cases hkind : job.kind with
  | limit count =>
    rw [limit, hkind] at h
    obtain ⟨emitted, s, hfold, -⟩ := bind_eq_ok.mp h
    intro d hd
    obtain ⟨c, c', t, t', hone⟩ := fold_eq_ok hfold d hd
    exact Delivery.foldRows_eq_ok hone
  | _ =>
    rw [limit, hkind] at h
    cases h

theorem sort_eq_ok (h : sort job inputs stage = (.ok (), stage')) :
    ∀ d ∈ inputs, d.fault = none := by
  obtain ⟨keys, s, -, h⟩ := bind_eq_ok.mp h
  obtain ⟨rows, s, hrows, -⟩ := bind_eq_ok.mp h
  exact Delivery.allRows_eq_ok (ofExcept_eq_ok.mp hrows).1

theorem merge_eq_ok (h : merge job inputs stage = (.ok (), stage')) :
    ∀ d ∈ inputs, d.fault = none := by
  obtain ⟨keys, s, -, h⟩ := bind_eq_ok.mp h
  obtain ⟨⟨⟩, s, -, h⟩ := bind_eq_ok.mp h
  cases hfault : (Feed.merge keys (inputs.map fun d => ⟨d.rows, d.fault⟩)).fault with
  | some e =>
    rw [hfault] at h
    cases h
  | none => exact List.forall_mem_map.mp (Feed.merge_fault hfault)

theorem distinct_eq_ok (h : distinct job inputs stage = (.ok (), stage')) :
    ∀ d ∈ inputs, d.fault = none := by
  obtain ⟨seen, s, hfold, -⟩ := bind_eq_ok.mp h
  intro d hd
  obtain ⟨c, c', t, t', hone⟩ := fold_eq_ok hfold d hd
  exact Delivery.foldRows_eq_ok hone

theorem writes_wrongKind {α : Type} (name : String) (job : StageJob) :
    Writes (wrongKind name job : Action Stage α) := writes_fail _

theorem writes_sortKeys (job : StageJob) : Writes (sortKeys job) := by
  rw [sortKeys]
  split
  · exact writes_pure _
  · exact writes_pure _
  · exact writes_wrongKind _ job

theorem onlyWrites_duplicate (job : StageJob) : OnlyWrites duplicate job := fun inputs =>
  writes_get.bind fun _ =>
    writes_each (Delivery.writes_eachRow fun row => writes_each (fun i => writes_write i row) _)
      inputs

theorem onlyWrites_balance (job : StageJob) : OnlyWrites balance job := by
  intro inputs
  refine writes_get.bind fun s => ?_
  refine (writes_fold (Delivery.writes_foldRows fun (next : Nat) row => ?_) 0 inputs).bind fun _ =>
    writes_pure ()
  exact (writes_write next row).bind fun _ => writes_pure _

theorem onlyWrites_shuffle (job : StageJob) : OnlyWrites shuffle job := by
  intro inputs
  rw [shuffle]
  split
  · exact writes_get.bind fun _ =>
      writes_each (Delivery.writes_eachRow fun row => writes_write _ row) inputs
  · exact writes_wrongKind _ job

theorem onlyWrites_concatenate (job : StageJob) : OnlyWrites concatenate job := fun inputs =>
  writes_each (Delivery.writes_eachBatch fun group =>
    writes_onOutput 0 (RowWriter.written_writeRows group.intoRows)) inputs

theorem onlyWrites_limit (job : StageJob) : OnlyWrites limit job := by
  intro inputs
  rw [limit]
  split
  · refine (writes_fold (Delivery.writes_foldRows fun (emitted : Nat) row => ?_) 0 inputs).bind
      fun _ => writes_pure ()
    split
    · exact (writes_write 0 row).bind fun _ => writes_pure _
    · exact writes_pure _
  · exact writes_wrongKind _ job

theorem onlyWrites_sort (job : StageJob) : OnlyWrites sort job := fun _ =>
  (writes_sortKeys job).bind fun _ => (writes_ofExcept _).bind fun _ =>
    writes_onOutput 0 (RowWriter.written_writeRows _)

theorem onlyWrites_merge (job : StageJob) : OnlyWrites merge job := by
  intro inputs
  refine (writes_sortKeys job).bind fun keys => ?_
  refine (writes_each (writes_write 0) _).bind fun _ => ?_
  split
  · exact writes_fail _
  · exact writes_pure ()

theorem onlyWrites_distinct (job : StageJob) : OnlyWrites distinct job := by
  intro inputs
  refine (writes_fold (Delivery.writes_foldRows fun (seen : Seen) row => ?_) {} inputs).bind
    fun _ => writes_log _ _
  split
  · exact writes_pure _
  · exact (writes_write 0 row).bind fun _ => writes_pure _

/-- What an operator owes the executor of a job. -/
structure Faithful (operator : Operator) (job : StageJob) : Prop where
  readsToEnd : operator.ReadsToEnd job
  onlyWrites : operator.OnlyWrites job

/-! ### The sample operators -/

theorem writes_scanNumber (file : String) : Writes (scanNumber file) := by
  rw [scanNumber]
  split
  · exact writes_fail _
  split
  · exact writes_fail _
  split
  · exact writes_write 0 _
  · exact writes_fail _

/-- A scan has no inputs. -/
theorem scanNumbers_faithful (hv : job.validate = .ok ()) : Faithful scanNumbers job where
  readsToEnd := by
    intro inputs stage stage' hlength h
    cases hkind : job.kind with
    | scan table partitions files =>
      have hnone := (StageJob.validate_eq_ok.mp hv).2.2.1
      rw [StageJob.checkInputs, hkind] at hnone
      dsimp only at hnone
      split at hnone
      · rename_i hempty
        rw [List.isEmpty_iff.mp hempty, List.length_nil, List.length_eq_zero_iff] at hlength
        rw [hlength]
        simp
      · cases hnone
    | _ =>
      rw [scanNumbers, hkind] at h
      cases h
  onlyWrites := by
    intro inputs
    rw [scanNumbers]
    split
    · exact writes_each writes_scanNumber _
    · exact writes_wrongKind _ job

theorem joinInMemory_faithful (job : StageJob) : Faithful joinInMemory job where
  readsToEnd := by
    intro inputs stage stage' _ h
    obtain ⟨left, s, hleft, h⟩ := bind_eq_ok.mp h
    obtain ⟨right, s, hright, -⟩ := bind_eq_ok.mp h
    rw [← List.take_append_drop job.leftInputs inputs]
    exact List.forall_mem_append.mpr ⟨Delivery.allRows_eq_ok (ofExcept_eq_ok.mp hleft).1,
      Delivery.allRows_eq_ok (ofExcept_eq_ok.mp hright).1⟩
  onlyWrites := fun _ =>
    (writes_ofExcept _).bind fun _ => (writes_ofExcept _).bind fun _ =>
      writes_each (writes_write 0) _

end Operator

namespace Registry

open Operator

theorem get?_mem {r : Registry} {tag : JobTag} {operator : Operator}
    (h : r.get? tag = some operator) : (tag, operator) ∈ r.entries := by
  obtain ⟨before, after, hentries, -⟩ := List.lookup_eq_some_iff.mp h
  rw [hentries]
  exact List.mem_append_cons_self

/-- Every built-in operator succeeds only if all its inputs have come to their end, however many
there are, and only writes to its outputs. -/
theorem builtins_contract {tag : JobTag} {operator : Operator}
    (h : (tag, operator) ∈ builtins.entries) (job : StageJob) :
    (∀ inputs stage stage', operator job inputs stage = (.ok (), stage') →
      ∀ d ∈ inputs, d.fault = none) ∧ operator.OnlyWrites job := by
  simp only [builtins, List.mem_cons, Prod.mk.injEq, List.not_mem_nil, or_false] at h
  rcases h with ⟨-, rfl⟩ | ⟨-, rfl⟩ | ⟨-, rfl⟩ | ⟨-, rfl⟩ | ⟨-, rfl⟩ | ⟨-, rfl⟩ | ⟨-, rfl⟩ |
    ⟨-, rfl⟩ | ⟨-, rfl⟩ | ⟨-, rfl⟩
  · exact ⟨fun _ _ _ => duplicate_eq_ok, onlyWrites_duplicate job⟩
  · exact ⟨fun _ _ _ => balance_eq_ok, onlyWrites_balance job⟩
  · exact ⟨fun _ _ _ => shuffle_eq_ok, onlyWrites_shuffle job⟩
  · exact ⟨fun _ _ _ => concatenate_eq_ok, onlyWrites_concatenate job⟩
  · exact ⟨fun _ _ _ => concatenate_eq_ok, onlyWrites_concatenate job⟩
  · exact ⟨fun _ _ _ => limit_eq_ok, onlyWrites_limit job⟩
  · exact ⟨fun _ _ _ => sort_eq_ok, onlyWrites_sort job⟩
  · exact ⟨fun _ _ _ => merge_eq_ok, onlyWrites_merge job⟩
  · exact ⟨fun _ _ _ => distinct_eq_ok, onlyWrites_distinct job⟩
  · exact ⟨fun _ _ _ => distinct_eq_ok, onlyWrites_distinct job⟩

theorem builtins_faithful {tag : JobTag} {operator : Operator}
    (h : (tag, operator) ∈ builtins.entries) (job : StageJob) : operator.Faithful job where
  readsToEnd := fun inputs stage stage' _ => (builtins_contract h job).1 inputs stage stage'
  onlyWrites := (builtins_contract h job).2

theorem withSamples_faithful {tag : JobTag} {operator : Operator} {job : StageJob}
    (h : (tag, operator) ∈ withSamples.entries) (hv : job.validate = .ok ()) :
    operator.Faithful job := by
  rcases List.mem_cons.mp h with heq | h
  · cases heq
    exact joinInMemory_faithful job
  rcases List.mem_cons.mp h with heq | h
  · cases heq
    exact joinInMemory_faithful job
  rcases List.mem_cons.mp h with heq | h
  · cases heq
    exact scanNumbers_faithful hv
  · exact builtins_faithful h job

end Registry

/-! ### Operators that fail -/

/-- A writer of a schema that has not been used yet, on a transport that holds nothing. -/
def RowWriter.Blank (schema : Schema) (w : RowWriter) : Prop :=
  ∃ sink threshold, sink.bytes = [] ∧ w = RowWriter.create sink schema threshold

theorem RowWriter.Blank.records {schema : Schema} {w : RowWriter} (h : w.Blank schema) :
    Records schema [] w {} := by
  obtain ⟨sink, threshold, hbytes, rfl⟩ := h
  exact hbytes ▸ create_records sink schema threshold

theorem RowWriter.sink_aborted (w : RowWriter) :
    w.aborted.frames.sink = { w.frames.sink with shutdowns := w.frames.sink.shutdowns + 1 } := rfl

theorem length_closeOutputs (ws : List RowWriter) : (closeOutputs ws).2.length = ws.length := by
  induction ws with
  | nil => rfl
  | cons w ws ih =>
    rw [closeOutputs]
    split
    · exact congrArg Nat.succ ih
    · simp

namespace Operator

variable {operator : Operator} {job : StageJob} {inputs : List Delivery}
  {writers : List RowWriter}

/-- Operators that only write leave as many outputs as there were. -/
theorem OnlyWrites.length_outputs (h : operator.OnlyWrites job) (inputs : List Delivery)
    (writers : List RowWriter) :
    (operator.perform job inputs writers).outputs.length = writers.length := by
  have hlength := (h inputs { outputs := writers }).length_eq
  rcases hrun : operator job inputs { outputs := writers } with ⟨result, stage⟩
  rw [hrun] at hlength
  rw [perform, hrun]
  cases result with
  | ok _ => exact (length_closeOutputs stage.outputs).trans hlength
  | error e =>
    cases e <;> first | exact hlength | exact (List.length_map _).trans hlength

/-- What an operator has written to outputs that were blank has not ended. -/
theorem OnlyWrites.unended (h : operator.OnlyWrites job)
    (hw : ∀ w ∈ writers, ∃ schema, w.Blank schema) :
    ∀ w ∈ (operator job inputs { outputs := writers }).2.outputs,
      Unended w.frames.sink.bytes := by
  intro w' hw'
  obtain ⟨i, hi⟩ := List.mem_iff_getElem?.mp hw'
  obtain ⟨w, hget, hwritten⟩ := (h inputs { outputs := writers }).written i w' hi
  obtain ⟨schema, hblank⟩ := hw w (List.mem_of_getElem? hget)
  obtain ⟨b, hb⟩ := hwritten.records hblank.records
  exact hb.unended

/-- When an operator fails none of its outputs has ended, and if its work is over, all of them
have been shut down. -/
theorem perform_unended (h : operator.OnlyWrites job)
    (hw : ∀ w ∈ writers, ∃ schema, w.Blank schema) {e : Error}
    (hfail : (operator job inputs { outputs := writers }).1 = .error e) :
    (operator.perform job inputs writers).result = .error e ∧
      ∀ w ∈ (operator.perform job inputs writers).outputs, Unended w.frames.sink.bytes ∧
        (e ≠ .wouldBlock → 0 < w.frames.sink.shutdowns) := by
  have hunended : ∀ w ∈ (operator job inputs { outputs := writers }).2.outputs,
      Unended w.frames.sink.bytes := h.unended hw
  rcases hrun : operator job inputs { outputs := writers } with ⟨result, stage⟩
  rw [hrun] at hfail hunended
  obtain rfl : result = .error e := hfail
  by_cases hwait : e = .wouldBlock
  · subst hwait
    rw [perform, hrun]
    exact ⟨rfl, fun w hmem => ⟨hunended w hmem, fun hne => absurd rfl hne⟩⟩
  · have hperform : operator.perform job inputs writers =
        { result := .error e, outputs := stage.outputs.map RowWriter.aborted
          logs := stage.logs } := by
      rw [perform, hrun]
      cases e <;> first | rfl | exact absurd rfl hwait
    rw [hperform]
    refine ⟨rfl, ?_⟩
    intro w hmem
    obtain ⟨w', hw', rfl⟩ := List.mem_map.mp hmem
    rw [RowWriter.sink_aborted]
    exact ⟨hunended w' hw', fun _ => Nat.succ_pos _⟩

end Operator

end StagedQuery

import Mathlib.Data.List.ReduceOption
import StagedQuery.Proofs.Stream.Reader

/-!
# What a writer puts onto its transport

A writer cuts the rows that it is given into batches. `Progress` says where: it is all of the
writer's state that matters for the rows, the batches that are out and the rows that wait.
`RowWriter.Tracks` relates a writer to the progress that it has made; every step of the writer
keeps up the relation (`RowWriter.step_tracks`), and so does every run (`RowWriter.each_tracks`).
So the transport holds the announcement of the schema and the messages of the batches, and
nothing else.
-/

namespace StagedQuery

/-! ### Calls and steps -/

/-- What a writer is asked to do before it is closed. -/
inductive RowWriter.Call
  | row (row : Row)
  | group (group : RowGroup)
  | flush

namespace RowWriter.Call

/-- The call as an action. -/
def run : Call → Action RowWriter Unit
  | .row r => writeRow r
  | .group g => writeGroup g
  | .flush => RowWriter.flush

/-- The rows that a call hands to the writer. -/
def rows : Call → List Row
  | .row r => [r]
  | .group g => g.intoRows
  | .flush => []

/-- The steps of a call: rows to append one by one, and a flush where there is no row. -/
def steps : Call → List (Option Row)
  | .row r => [some r]
  | .group g => g.intoRows.map some
  | .flush => [none]

theorem reduceOption_steps (c : Call) : c.steps.reduceOption = c.rows := by
  cases c with
  | row r => rfl
  | group g => rw [steps, List.reduceOption, List.filterMap_map, Function.id_comp,
      List.filterMap_some, rows]
  | flush => rfl

/-- What rows that are handed over one by one come to. -/
theorem flatMap_rows_row (rows : List Row) : (rows.map row).flatMap Call.rows = rows := by
  rw [List.flatMap_map]
  exact List.flatMap_singleton' rows

end RowWriter.Call

/-! ### Progress -/

/-- How far a writer is: the batches that it has written, and the rows that wait. -/
structure Progress where
  batches : List (List Row) := []
  pending : List Row := []

namespace Progress

/-- What waits becomes a batch, if anything waits. -/
def flush (p : Progress) : Progress :=
  if p.pending = [] then p else { batches := p.batches ++ [p.pending], pending := [] }

/-- One more row waits. -/
def push (p : Progress) (row : Row) : Progress := { p with pending := p.pending ++ [row] }

/-- The progress of one step: a row, which makes a batch when there are `threshold` of them, or
a flush. -/
def step (threshold : Nat) (p : Progress) : Option Row → Progress
  | some row =>
    if threshold ≤ (p.push row).pending.length then (p.push row).flush else p.push row
  | none => p.flush

/-- The progress of many steps. -/
def run (threshold : Nat) (p : Progress) (steps : List (Option Row)) : Progress :=
  steps.foldl (step threshold) p

/-- All rows so far, in order. -/
def rows (p : Progress) : List Row := p.batches.flatten ++ p.pending

@[simp] theorem rows_flush (p : Progress) : p.flush.rows = p.rows := by
  rw [flush]
  split <;> simp [rows]

@[simp] theorem rows_push (p : Progress) (r : Row) : (p.push r).rows = p.rows ++ [r] := by
  simp [push, rows]

theorem rows_step (threshold : Nat) (p : Progress) (s : Option Row) :
    (p.step threshold s).rows = p.rows ++ s.toList := by
  cases s with
  | none => simp [step]
  | some r =>
    rw [step]
    split <;> simp

/-- The rows of a run are in its batches, but for those that still wait. -/
theorem rows_run (threshold : Nat) (p : Progress) (steps : List (Option Row)) :
    (p.run threshold steps).rows = p.rows ++ steps.reduceOption := by
  induction steps generalizing p with
  | nil => simp [run]
  | cons s steps ih =>
    rw [run, List.foldl_cons, ← run, ih, rows_step, List.append_assoc]
    cases s <;> simp

@[simp] theorem pending_flush (p : Progress) : p.flush.pending = [] := by
  rw [flush]
  split
  · assumption
  · rfl

theorem batches_flush (p : Progress) : p.batches <+: p.flush.batches := by
  rw [flush]
  split
  · exact List.prefix_refl _
  · exact List.prefix_append _ _

theorem batches_step (threshold : Nat) (p : Progress) (s : Option Row) :
    p.batches <+: (p.step threshold s).batches := by
  cases s with
  | none => exact batches_flush p
  | some r =>
    rw [step]
    split
    · exact batches_flush (p.push r)
    · exact List.prefix_refl _

/-- Batches that are out stay out. -/
theorem batches_run (threshold : Nat) (p : Progress) (steps : List (Option Row)) :
    p.batches <+: (p.run threshold steps).batches :=
  List.foldlRecOn (motive := fun q => p.batches <+: q.batches) steps _ (List.prefix_refl _)
    fun q hq s _ => hq.trans (batches_step threshold q s)

/-- The batches have at most `threshold` rows, and fewer wait. -/
structure Within (threshold : Nat) (p : Progress) : Prop where
  batches_le : ∀ batch ∈ p.batches, batch.length ≤ threshold
  pending_lt : p.pending.length < threshold

theorem batches_flush_le {threshold : Nat} {p : Progress}
    (hb : ∀ batch ∈ p.batches, batch.length ≤ threshold) (hp : p.pending.length ≤ threshold) :
    ∀ batch ∈ p.flush.batches, batch.length ≤ threshold := by
  rw [flush]
  split
  · exact hb
  · intro batch hmem
    obtain hmem | hmem := List.mem_append.mp hmem
    · exact hb batch hmem
    · rwa [List.mem_singleton.mp hmem]

theorem Within.step {threshold : Nat} {p : Progress} (h : p.Within threshold) (s : Option Row) :
    (p.step threshold s).Within threshold := by
  have hlt := h.pending_lt
  have hpos := Nat.zero_lt_of_lt hlt
  cases s with
  | none =>
    exact ⟨batches_flush_le h.batches_le (Nat.le_of_lt hlt), by rwa [Progress.step, pending_flush]⟩
  | some r =>
    have hpush : (p.push r).pending.length = p.pending.length + 1 := by simp [push]
    rw [Progress.step]
    split
    · exact ⟨batches_flush_le (p := p.push r) h.batches_le (by omega), by rwa [pending_flush]⟩
    · exact ⟨h.batches_le, by omega⟩

/-- No batch of a run is longer than the threshold. -/
theorem Within.run {threshold : Nat} {p : Progress} (h : p.Within threshold)
    (steps : List (Option Row)) : (p.run threshold steps).Within threshold :=
  List.foldlRecOn steps _ h fun _ hq s _ => hq.step s

end Progress

/-! ### The writer keeps track -/

/-- All texts of the row are countable. -/
def Row.Countable (row : Row) : Prop := ∀ v ∈ row.vals ++ row.keys, Column.Countable v

instance (row : Row) : Decidable row.Countable :=
  inferInstanceAs (Decidable (∀ v ∈ row.vals ++ row.keys, Column.Countable v))

/-- A batch that can be written: its rows fit the schema, it and its texts can be counted, and
each of its messages has a frame. -/
structure Writable (schema : Schema) (batch : List Row) : Prop where
  valid : ∀ row ∈ batch, row.validate schema = .ok ()
  countable : ∀ row ∈ batch, row.Countable
  length_lt : batch.length < 0x80000000
  framed : ∀ m ∈ (RowGroup.collected schema batch).messages schema,
    frameOf m = .ok (frameBytes m)

/-- The announcement of a schema and the messages of some batches. -/
def streamMessages (schema : Schema) (batches : List (List Row)) : List Bytes :=
  schema.toJson.bytes :: batches.flatMap fun b => (RowGroup.collected schema b).messages schema

theorem Writable.encoded {schema : Schema} {batch : List Row} (h : Writable schema batch) :
    (RowGroup.collected schema batch).encode schema =
      .ok ((RowGroup.collected schema batch).messages schema) := by
  have hcount : (RowGroup.collected schema batch).rowCount < 0x80000000 := by
    rw [RowGroup.rowCount_collected]
    exact h.length_lt
  obtain ⟨ms, hms⟩ := RowGroup.encode_isOk (RowGroup.fits_collected h.valid) hcount (by
    intro column hc v hv
    obtain ⟨row, hrow, hmem⟩ := RowGroup.mem_collected hc hv
    exact h.countable row hrow v hmem)
  exact RowGroup.encode_messages hms

namespace RowWriter

/-- The writer of `schema` has made the progress `p` since its transport held `start`. -/
structure Tracks (schema : Schema) (threshold : Nat) (start : Bytes) (w : RowWriter)
    (p : Progress) : Prop where
  schema_eq : w.schema = schema
  threshold_eq : w.threshold = threshold
  buffer_eq : w.buffer = RowGroup.collected schema p.pending
  unfinished : w.frames.finished = false
  neverFails : w.frames.sink.NeverFails
  unsent : w.schemaSent = false → p.batches = [] ∧ w.frames.sink.bytes = start
  sent : w.schemaSent = true →
    w.frames.sink.bytes = start ++ framed (streamMessages schema p.batches)

variable {schema : Schema} {threshold : Nat} {start : Bytes} {w : RowWriter} {p : Progress}

theorem onFrames_eq {x : Action FrameWriter Unit} {frames : FrameWriter}
    (h : x w.frames = (.ok (), frames)) : onFrames x w = (.ok (), { w with frames }) :=
  Action.zoom_apply h

/-- Messages that have frames are written as these, one after the other. -/
theorem each_writeMessage {ms : List Bytes} (hf : w.frames.finished = false)
    (hs : w.frames.sink.NeverFails) (hm : ∀ m ∈ ms, frameOf m = .ok (frameBytes m)) :
    ∃ sink : Sink, sink.NeverFails ∧ sink.bytes = w.frames.sink.bytes ++ framed ms ∧
      Action.each (fun m => onFrames (FrameWriter.writeMessage m)) ms w =
        (.ok (), { w with frames := { w.frames with sink } }) := by
  induction ms generalizing w with
  | nil => exact ⟨w.frames.sink, hs, (List.append_nil _).symm, rfl⟩
  | cons m ms ih =>
    have hwrite := onFrames_eq (FrameWriter.writeMessage_eq hf hs (hm m List.mem_cons_self))
    obtain ⟨sink, hnever, hbytes, heach⟩ :=
      ih (w := { w with frames := { w.frames with sink := w.frames.sink.took (frameBytes m) } })
        hf (hs.took _) fun m' hm' => hm m' (List.mem_cons_of_mem _ hm')
    refine ⟨sink, hnever, ?_, (Action.bind_ok hwrite).trans heach⟩
    rw [hbytes, Sink.bytes_took, framed_cons, List.append_assoc]

theorem sendSchema_tracks (h : Tracks schema threshold start w p)
    (ha : frameOf schema.toJson.bytes = .ok (frameBytes schema.toJson.bytes)) :
    ∃ w', sendSchema w = (.ok (), w') ∧ w'.schemaSent = true ∧
      Tracks schema threshold start w' p := by
  rw [sendSchema, Action.bind_ok (Action.get_apply w)]
  cases hsent : w.schemaSent with
  | true => exact ⟨w, rfl, hsent, h⟩
  | false =>
    obtain ⟨hnone, hstart⟩ := h.unsent hsent
    have hwrite : onFrames (FrameWriter.writeJson w.schema.toJson) w = _ :=
      onFrames_eq (FrameWriter.writeMessage_eq h.unfinished h.neverFails
        (by rw [h.schema_eq]; exact ha))
    refine ⟨_, Action.bind_ok hwrite, rfl, ?_⟩
    refine ⟨h.schema_eq, h.threshold_eq, h.buffer_eq, h.unfinished, h.neverFails.took _,
      fun hfalse => Bool.noConfusion hfalse, fun _ => ?_⟩
    rw [hnone]
    simp [streamMessages, hstart]

/-- A flush writes what waits as one batch. -/
theorem flush_tracks (h : Tracks schema threshold start w p)
    (ha : frameOf schema.toJson.bytes = .ok (frameBytes schema.toJson.bytes))
    (hp : p.pending ≠ [] → Writable schema p.pending) :
    ∃ w', flush w = (.ok (), w') ∧ w'.schemaSent = true ∧
      Tracks schema threshold start w' p.flush := by
  obtain ⟨v, hsend, hsent, hv⟩ := sendSchema_tracks h ha
  have hempty : v.buffer.isEmpty = p.pending.isEmpty := by
    rw [hv.buffer_eq, RowGroup.isEmpty, RowGroup.rowCount_collected]
    cases p.pending <;> rfl
  rw [flush, Action.bind_ok hsend, Action.bind_ok (Action.get_apply v), hempty]
  by_cases hpending : p.pending = []
  · refine ⟨v, ?_, hsent, ?_⟩
    · rw [hpending]
      rfl
    · rwa [Progress.flush, if_pos hpending]
  · have hw := hp hpending
    obtain ⟨sink, hnever, hbytes, heach⟩ :=
      each_writeMessage (w := { v with buffer := .empty v.schema }) hv.unfinished hv.neverFails
        hw.framed
    rw [if_neg (by simpa using hpending), hv.buffer_eq, hv.schema_eq, hw.encoded]
    let w' : RowWriter := { v with
      frames := { v.frames with sink }, buffer := .empty v.schema, flushes := v.flushes + 1 }
    refine ⟨w', (Action.bind_ok (Action.modify_apply _ v)).trans ?_, hsent, ?_⟩
    · exact (Action.bind_ok (Action.ofExcept_ok _ _)).trans ((Action.bind_ok heach).trans rfl)
    · rw [Progress.flush, if_neg hpending]
      refine ⟨hv.schema_eq, hv.threshold_eq, ?_, hv.unfinished, hnever, ?_, ?_⟩
      · rw [RowGroup.collected_nil]
        exact congrArg RowGroup.empty hv.schema_eq
      · intro hfalse
        exact absurd (hsent.symm.trans hfalse) Bool.noConfusion
      · intro _
        refine hbytes.trans ?_
        rw [hv.sent hsent, List.append_assoc, ← framed_append]
        simp [streamMessages]

/-- The action of one step. -/
def runStep : Option Row → Action RowWriter Unit
  | some row => writeRow row
  | none => flush

/-- A step of the writer is a step of its progress. -/
theorem step_tracks (h : Tracks schema threshold start w p)
    (ha : frameOf schema.toJson.bytes = .ok (frameBytes schema.toJson.bytes)) {s : Option Row}
    (hs : ∀ row ∈ s, row.validate schema = .ok ())
    (hb : ∀ batch ∈ (p.step threshold s).batches, Writable schema batch) :
    ∃ w', runStep s w = (.ok (), w') ∧ Tracks schema threshold start w' (p.step threshold s) := by
  have outgoing {q : Progress} (hq : ∀ batch ∈ q.flush.batches, Writable schema batch)
      (hne : q.pending ≠ []) : Writable schema q.pending := by
    refine hq _ ?_
    rw [Progress.flush, if_neg hne]
    exact List.mem_append_right _ List.mem_cons_self
  cases s with
  | none =>
    obtain ⟨w', hflush, -, ht⟩ := flush_tracks h ha (outgoing hb)
    exact ⟨w', hflush, ht⟩
  | some row =>
    have hpush : w.buffer.push w.schema row = .ok (w.buffer.append row) := by
      rw [h.schema_eq]
      exact RowGroup.push_eq_ok (hs row rfl)
    have hcount : (w.buffer.append row).rowCount = (p.push row).pending.length := by
      rw [h.buffer_eq, ← RowGroup.collected_concat, RowGroup.rowCount_collected, Progress.push]
    have ht : Tracks schema threshold start { w with buffer := w.buffer.append row }
        (p.push row) := by
      refine ⟨h.schema_eq, h.threshold_eq, ?_, h.unfinished, h.neverFails, h.unsent, h.sent⟩
      rw [Progress.push, RowGroup.collected_concat, ← h.buffer_eq]
    rw [runStep, writeRow, Action.bind_ok (Action.get_apply w), hpush]
    simp only [Progress.step] at hb ⊢
    by_cases hfull : threshold ≤ (p.push row).pending.length
    · rw [if_pos hfull] at hb ⊢
      obtain ⟨w', hflush, -, ht'⟩ := flush_tracks ht ha (outgoing hb)
      refine ⟨w', (Action.bind_ok rfl).trans ((Action.bind_ok rfl).trans ?_), ht'⟩
      rw [if_pos (by rwa [h.threshold_eq, hcount])]
      exact hflush
    · rw [if_neg hfull]
      refine ⟨_, (Action.bind_ok rfl).trans ((Action.bind_ok rfl).trans ?_), ht⟩
      rw [if_neg (by rwa [h.threshold_eq, hcount])]
      rfl

/-- A run of the writer is a run of its progress. -/
theorem each_tracks (h : Tracks schema threshold start w p)
    (ha : frameOf schema.toJson.bytes = .ok (frameBytes schema.toJson.bytes))
    {steps : List (Option Row)} (hs : ∀ row ∈ steps.reduceOption, row.validate schema = .ok ())
    (hb : ∀ batch ∈ (p.run threshold steps).batches, Writable schema batch) :
    ∃ w', Action.each runStep steps w = (.ok (), w') ∧
      Tracks schema threshold start w' (p.run threshold steps) := by
  induction steps generalizing w p with
  | nil => exact ⟨w, rfl, h⟩
  | cons s steps ih =>
    have hlater := Progress.batches_run threshold (p.step threshold s) steps
    obtain ⟨v, hstep, hv⟩ := step_tracks h ha (s := s)
      (fun row hrow => hs row (by
        rw [Option.mem_def] at hrow
        rw [hrow, List.reduceOption_cons_of_some]
        exact List.mem_cons_self))
      fun batch hbatch => hb batch (hlater.subset hbatch)
    obtain ⟨w', hrun, hw'⟩ := ih hv
      (fun row hrow => hs row (by
        rw [← List.singleton_append, List.reduceOption_append]
        exact List.mem_append_right _ hrow)) hb
    exact ⟨w', (Action.bind_ok hstep).trans hrun, hw'⟩

end RowWriter

end StagedQuery

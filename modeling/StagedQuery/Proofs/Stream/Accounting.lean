import Mathlib.Data.List.TakeWhile
import StagedQuery.Proofs.Stream.Attempts

/-!
# The accounts of a writer

On a transport that refuses nothing, what can still go wrong is in the rows: one may not fit the
schema, and a batch may be too large for its counts or its frames. Whatever comes, the accounts of
the writer add up (`RowWriter.Accounted`): its batches and what waits are the rows that it has
taken, in their order; the counter says how many batches went out as a whole; and the transport
holds the announcement of the schema, once and first, and what went out of each batch.

A row that does not fit changes nothing, and of a group only the rows before it are taken. As long
as all batches go out, these are the rows that the calls alone tell (`RowWriter.accounts_settled`).
-/

namespace StagedQuery

open StagedQuery.Action

theorem Progress.run_append (threshold : Nat) (p : Progress) (front back : List (Option Row)) :
    p.run threshold (front ++ back) = (p.run threshold front).run threshold back :=
  List.foldl_append

/-- The row fits the schema. -/
def Row.fits (schema : Schema) (row : Row) : Bool := decide (row.validate schema = .ok ())

namespace RowWriter

/-- The row of the step, if it has one, fits the schema. -/
def fits (schema : Schema) : Option Row → Bool
  | some row => row.fits schema
  | none => true

/-- The rows of a call up to the first that does not fit. -/
def Call.fitting (schema : Schema) (c : Call) : List Row := c.rows.takeWhile (Row.fits schema)

/-- The steps of a call up to the first whose row does not fit. -/
def Call.fittingSteps (schema : Schema) (c : Call) : List (Option Row) :=
  c.steps.takeWhile (fits schema)

theorem Call.reduceOption_fittingSteps (schema : Schema) (c : Call) :
    (c.fittingSteps schema).reduceOption = c.fitting schema := by
  have hgroup (rows : List Row) : ((rows.map some).takeWhile (fits schema)).reduceOption =
      rows.takeWhile (Row.fits schema) := by
    rw [List.takeWhile_map, List.reduceOption, List.filterMap_map, Function.id_comp,
      List.filterMap_some]
    rfl
  cases c with
  | row r => exact hgroup [r]
  | group g => exact hgroup g.intoRows
  | flush => rfl

/-- The steps that were tried and whose rows fit. -/
def fittingSteps (schema : Schema) (steps : List (RowWriter × Option Row)) : List (Option Row) :=
  (steps.map (·.2)).filter (fits schema)

/-! ### Batches that go out -/

/-- All of the batch can be written. -/
def Sendable (schema : Schema) (batch : List Row) : Prop :=
  let group := RowGroup.collected schema batch
  group.encode schema = .ok (group.messages schema) ∧
    ∀ m ∈ group.messages schema, frameOf m = .ok (frameBytes m)

instance (schema : Schema) : DecidablePred (Sendable schema) := fun _ => inferInstanceAs
  (Decidable (_ ∧ _))

/-- The message has a frame. -/
def framable (m : Bytes) : Bool := decide (frameOf m = .ok (frameBytes m))

/-- What goes out of a batch: its messages up to the first that has no frame. -/
def outgoing (schema : Schema) (batch : List Row) : List Bytes :=
  ((RowGroup.collected schema batch).messages schema).takeWhile framable

theorem outgoing_sendable {schema : Schema} {batch : List Row} (h : Sendable schema batch) :
    outgoing schema batch = (RowGroup.collected schema batch).messages schema :=
  List.takeWhile_eq_self_iff.mpr fun m hm => decide_eq_true (h.2 m hm)

/-! ### Accounts -/

/-- The accounts of a writer that has made the progress `p` since its transport held the pieces
`start`. -/
structure Accounted (schema : Schema) (threshold : Nat) (start : List Bytes) (w : RowWriter)
    (p : Progress) : Prop where
  schema_eq : w.schema = schema
  threshold_eq : w.threshold = threshold
  buffer_eq : w.buffer = RowGroup.collected schema p.pending
  unfinished : w.frames.finished = false
  neverFails : w.frames.sink.NeverFails
  valid : ∀ row ∈ p.pending, row.validate schema = .ok ()
  batches_ne : ∀ batch ∈ p.batches, batch ≠ []
  flushes_eq : w.flushes = p.batches.countP (Sendable schema)
  unsent : w.schemaSent = false → p.batches = [] ∧ w.frames.sink.pieces = start
  sent : w.schemaSent = true → w.frames.sink.pieces =
    start ++ (schema.toJson.bytes :: p.batches.flatMap (outgoing schema)).map frameBytes

variable {schema : Schema} {threshold : Nat} {start : List Bytes} {w w' : RowWriter}
  {p : Progress}

theorem create_accounted {sink : Sink} (hsink : sink.NeverFails) (schema : Schema)
    (threshold : Nat) :
    Accounted schema (max threshold 1) sink.pieces (create sink schema threshold) {} where
  schema_eq := rfl
  threshold_eq := rfl
  buffer_eq := rfl
  unfinished := rfl
  neverFails := hsink
  valid := by simp
  batches_ne := by simp
  flushes_eq := rfl
  unsent := fun _ => ⟨rfl, rfl⟩
  sent := nofun

/-- Messages are written up to the first that has no frame. -/
theorem each_writeMessage_outgoing (hf : w.frames.finished = false)
    (hs : w.frames.sink.NeverFails) (ms : List Bytes) :
    ∃ (result : Except Error Unit) (sink : Sink), sink.NeverFails ∧
      sink.pieces = w.frames.sink.pieces ++ (ms.takeWhile framable).map frameBytes ∧
      Action.each (fun m => onFrames (FrameWriter.writeMessage m)) ms w =
        (result, { w with frames := { w.frames with sink } }) ∧
      (result = .ok () ↔ ∀ m ∈ ms, frameOf m = .ok (frameBytes m)) := by
  induction ms generalizing w with
  | nil => exact ⟨.ok (), w.frames.sink, hs, by simp, rfl, by simp⟩
  | cons m ms ih =>
    by_cases hm : frameOf m = .ok (frameBytes m)
    · have hwrite := onFrames_eq (FrameWriter.writeMessage_eq hf hs hm)
      obtain ⟨result, sink, hnever, hpieces, heach, hok⟩ :=
        ih (w := { w with frames := { w.frames with sink := w.frames.sink.took (frameBytes m) } })
          hf (hs.took _)
      have hframable : framable m = true := decide_eq_true hm
      refine ⟨result, sink, hnever, ?_, (bind_ok hwrite).trans heach, ?_⟩
      · rw [hpieces, List.takeWhile_cons_of_pos hframable]
        simp [Sink.took]
      · rw [hok, List.forall_mem_cons]
        exact (and_iff_right hm).symm
    · obtain ⟨hframe, -⟩ | ⟨e, offered, hwrite⟩ := FrameWriter.writeMessage_cases m w.frames
      · exact absurd hframe hm
      · have hframable : ¬ framable m = true := by simpa [framable] using hm
        refine ⟨.error e, { w.frames.sink with offered }, hs, ?_,
          bind_error (zoom_apply hwrite), ?_⟩
        · rw [List.takeWhile_cons_of_neg hframable]
          exact (List.append_nil _).symm
        · exact ⟨by rintro ⟨⟩, fun hall => absurd (hall m List.mem_cons_self) hm⟩

theorem sendSchema_accounted (h : Accounted schema threshold start w p)
    (ha : frameOf schema.toJson.bytes = .ok (frameBytes schema.toJson.bytes)) :
    ∃ v, sendSchema w = (.ok (), v) ∧ v.schemaSent = true ∧
      Accounted schema threshold start v p := by
  rw [sendSchema, bind_ok (get_apply w)]
  cases hsent : w.schemaSent with
  | true => exact ⟨w, rfl, hsent, h⟩
  | false =>
    obtain ⟨hnone, hstart⟩ := h.unsent hsent
    have hframe : frameOf w.schema.toJson.bytes = .ok (frameBytes w.schema.toJson.bytes) := by
      rw [h.schema_eq]
      exact ha
    have hwrite : onFrames (FrameWriter.writeJson w.schema.toJson) w = _ :=
      onFrames_eq (FrameWriter.writeMessage_eq h.unfinished h.neverFails hframe)
    refine ⟨_, bind_ok hwrite, rfl, ⟨h.schema_eq, h.threshold_eq, h.buffer_eq, h.unfinished,
      h.neverFails.took _, h.valid, h.batches_ne, h.flushes_eq, fun hfalse => ?_, fun _ => ?_⟩⟩
    · cases hfalse
    · rw [hnone, h.schema_eq]
      simp [Sink.took, hstart]

/-- What waited has become a batch, and what could go out of it is out. -/
theorem Accounted.batch (h : Accounted schema threshold start w p) (hsent : w.schemaSent = true)
    (hpending : p.pending ≠ []) {sink : Sink} {flushes : Nat} (hs : sink.NeverFails)
    (hp : sink.pieces = w.frames.sink.pieces ++ (outgoing schema p.pending).map frameBytes)
    (hf : flushes = w.flushes + if Sendable schema p.pending then 1 else 0) :
    Accounted schema threshold start { w with
      frames := { w.frames with sink }, buffer := .empty w.schema, flushes } p.flush := by
  rw [Progress.flush, if_neg hpending]
  refine ⟨h.schema_eq, h.threshold_eq, ?_, h.unfinished, hs, by simp, ?_, ?_, ?_, ?_⟩
  · rw [RowGroup.collected_nil]
    exact congrArg RowGroup.empty h.schema_eq
  · exact List.forall_mem_append.mpr ⟨h.batches_ne, List.forall_mem_singleton.mpr hpending⟩
  · rw [List.countP_append, ← h.flushes_eq, hf]
    simp [List.countP_cons]
  · intro hfalse
    exact absurd (hsent.symm.trans hfalse) Bool.noConfusion
  · intro _
    rw [hp, h.sent hsent]
    simp

/-- What a flush does behind the announcement, if rows wait. -/
def sendBatch : Action RowWriter Unit := do
  let w ← .get
  .modify fun w => { w with buffer := .empty w.schema }
  let messages ← .ofExcept ((w.buffer.encode w.schema).mapError .data)
  Action.each (fun m => onFrames (FrameWriter.writeMessage m)) messages
  .modify fun w => { w with flushes := w.flushes + 1 }

theorem flush_eq_sendBatch {v : RowWriter} (hsend : sendSchema w = (.ok (), v)) :
    flush w = if v.buffer.isEmpty then (.ok (), v) else sendBatch v := by
  rw [flush, bind_ok hsend, bind_ok (get_apply v)]
  split
  · rfl
  · rw [sendBatch, bind_ok (get_apply v)]

/-- What waits becomes a batch, of which as much goes out as can. -/
theorem sendBatch_accounted (h : Accounted schema threshold start w p)
    (hsent : w.schemaSent = true) (hpending : p.pending ≠ []) :
    Accounted schema threshold start (sendBatch w).2 p.flush ∧
      (Sendable schema p.pending → (sendBatch w).1 = .ok ()) := by
  have hbuffer : w.buffer.encode w.schema =
      (RowGroup.collected schema p.pending).encode schema := by
    rw [h.buffer_eq, h.schema_eq]
  have hsend := show sendBatch w = _ by
    rw [sendBatch, bind_ok (get_apply w), bind_ok (modify_apply _ w), hbuffer]
  cases hencode : (RowGroup.collected schema p.pending).encode schema with
  | error fault =>
    rw [hencode] at hsend
    have hfails : sendBatch w = (.error (.data fault), { w with buffer := .empty w.schema }) :=
      hsend
    have hmessages : (RowGroup.collected schema p.pending).messages schema = [] := by
      rw [RowGroup.messages, hencode]
      rfl
    have hnot : ¬ Sendable schema p.pending := by
      rintro ⟨hencoded, -⟩
      cases hencode.symm.trans hencoded
    have hpieces : w.frames.sink.pieces =
        w.frames.sink.pieces ++ (outgoing schema p.pending).map frameBytes := by
      simp [outgoing, hmessages]
    rw [hfails]
    exact ⟨h.batch hsent hpending h.neverFails hpieces (by simp [hnot]),
      fun hsendable => absurd hsendable hnot⟩
  | ok ms =>
    obtain rfl : ms = (RowGroup.collected schema p.pending).messages schema :=
      Except.ok.inj (hencode.symm.trans (RowGroup.encode_messages hencode))
    obtain ⟨result, sink, hnever, hpieces, heach, hok⟩ :=
      each_writeMessage_outgoing (w := { w with buffer := .empty w.schema }) h.unfinished
        h.neverFails ((RowGroup.collected schema p.pending).messages schema)
    have hsendable : Sendable schema p.pending ↔ result = .ok () :=
      (and_iff_right hencode).trans hok.symm
    rw [hencode] at hsend
    have hwrites := hsend.trans (bind_ok (ofExcept_ok _ _))
    cases result with
    | error e =>
      have hnot : ¬ Sendable schema p.pending := by
        intro hs
        cases hsendable.mp hs
      rw [hwrites, bind_error heach]
      exact ⟨h.batch hsent hpending hnever hpieces (by simp [hnot]), fun hs => absurd hs hnot⟩
    | ok =>
      rw [hwrites, bind_ok heach, modify_apply]
      exact ⟨h.batch hsent hpending hnever hpieces (by simp [hsendable]), fun _ => rfl⟩

/-- A flush makes a batch of what waits, if anything waits, and succeeds if the batch goes out. -/
theorem flush_accounted (h : Accounted schema threshold start w p)
    (ha : frameOf schema.toJson.bytes = .ok (frameBytes schema.toJson.bytes)) :
    Accounted schema threshold start (flush w).2 p.flush ∧
      ((∀ batch ∈ p.flush.batches, Sendable schema batch) → (flush w).1 = .ok ()) := by
  obtain ⟨v, hsend, hsent, hv⟩ := sendSchema_accounted h ha
  have hempty : v.buffer.isEmpty = p.pending.isEmpty := by
    rw [hv.buffer_eq, RowGroup.isEmpty, RowGroup.rowCount_collected]
    cases p.pending <;> rfl
  rw [flush_eq_sendBatch hsend, hempty]
  by_cases hpending : p.pending = []
  · rw [Progress.flush, if_pos hpending, hpending]
    exact ⟨hv, fun _ => rfl⟩
  · rw [if_neg (by simpa using hpending)]
    obtain ⟨hkept, hok⟩ := sendBatch_accounted hv hsent hpending
    refine ⟨hkept, fun hall => hok (hall _ ?_)⟩
    rw [Progress.flush, if_neg hpending]
    exact List.mem_append_right _ List.mem_cons_self

theorem writeRow_unfit {row : Row} {fault : DataError}
    (h : row.validate w.schema = .error fault) :
    writeRow row w = (.error (.data fault), w) := by
  refine writeRow_refused ?_
  rw [RowGroup.push, h]
  rfl

/-- A step makes the progress of its row, if this fits, and succeeds if it does and the batches
go out. -/
theorem step_accounted (h : Accounted schema threshold start w p)
    (ha : frameOf schema.toJson.bytes = .ok (frameBytes schema.toJson.bytes)) (s : Option Row) :
    if fits schema s then
      Accounted schema threshold start (runStep s w).2 (p.step threshold s) ∧
        ((∀ batch ∈ (p.step threshold s).batches, Sendable schema batch) →
          (runStep s w).1 = .ok ())
    else ∃ e, runStep s w = (.error e, w) := by
  cases s with
  | none => exact flush_accounted h ha
  | some row =>
    cases hvalid : row.validate schema with
    | error fault =>
      rw [if_neg (by simp [fits, Row.fits, hvalid])]
      rw [← h.schema_eq] at hvalid
      exact ⟨_, writeRow_unfit hvalid⟩
    | ok =>
      rw [if_pos (by simp [fits, Row.fits, hvalid])]
      have hpush : w.buffer.push w.schema row = .ok (w.buffer.append row) := by
        rw [h.schema_eq]
        exact RowGroup.push_eq_ok hvalid
      have hcount : (w.buffer.append row).rowCount = (p.push row).pending.length := by
        rw [h.buffer_eq, ← RowGroup.collected_concat, RowGroup.rowCount_collected, Progress.push]
      have hv : Accounted schema threshold start { w with buffer := w.buffer.append row }
          (p.push row) := by
        refine ⟨h.schema_eq, h.threshold_eq, ?_, h.unfinished, h.neverFails, ?_, h.batches_ne,
          h.flushes_eq, h.unsent, h.sent⟩
        · rw [Progress.push, RowGroup.collected_concat, ← h.buffer_eq]
        · exact List.forall_mem_append.mpr ⟨h.valid, List.forall_mem_singleton.mpr hvalid⟩
      have hstep : runStep (some row) w = _ := writeRow_pushed hpush
      rw [Progress.step]
      by_cases hfull : threshold ≤ (p.push row).pending.length
      · rw [if_pos (by rwa [h.threshold_eq, hcount])] at hstep
        rw [hstep, if_pos hfull]
        exact flush_accounted hv ha
      · rw [if_neg (by rwa [h.threshold_eq, hcount])] at hstep
        rw [hstep, if_neg hfull]
        exact ⟨hv, fun _ => rfl⟩

/-! ### Runs -/

theorem fittingSteps_cons (schema : Schema) (w : RowWriter) (s : Option Row)
    (steps : List (RowWriter × Option Row)) :
    fittingSteps schema ((w, s) :: steps) =
      if fits schema s then s :: fittingSteps schema steps else fittingSteps schema steps :=
  List.filter_cons

theorem fittingSteps_append (schema : Schema) (front back : List (RowWriter × Option Row)) :
    fittingSteps schema (front ++ back) =
      fittingSteps schema front ++ fittingSteps schema back := by
  rw [fittingSteps, List.map_append, List.filter_append, fittingSteps, fittingSteps]

/-- The steps that are tried make the progress of those whose rows fit. -/
theorem tried_accounted (h : Accounted schema threshold start w p)
    (ha : frameOf schema.toJson.bytes = .ok (frameBytes schema.toJson.bytes))
    (steps : List (Option Row)) :
    Accounted schema threshold start (Action.each runStep steps w).2
      (p.run threshold (fittingSteps schema (tried steps w))) := by
  induction steps generalizing w p with
  | nil => exact h
  | cons s steps ih =>
    have hstep := step_accounted h ha s
    rw [each_cons, tried, fittingSteps_cons]
    by_cases hfits : fits schema s = true
    · rw [if_pos hfits] at hstep
      rw [if_pos hfits]
      rcases hrun : runStep s w with ⟨e | ⟨⟩, w'⟩
      · rw [hrun] at hstep
        rw [bind_error hrun]
        exact hstep.1
      · rw [hrun] at hstep
        rw [bind_ok hrun]
        exact ih hstep.1
    · rw [if_neg hfits] at hstep
      obtain ⟨e, hrun⟩ := hstep
      rw [if_neg hfits, bind_error hrun, hrun]
      exact h

/-- As long as all batches go out, the steps that are tried and fit are those up to the first whose
row does not fit. -/
theorem fittingSteps_tried (h : Accounted schema threshold start w p)
    (ha : frameOf schema.toJson.bytes = .ok (frameBytes schema.toJson.bytes))
    {steps : List (Option Row)}
    (hb : ∀ batch ∈ (p.run threshold (fittingSteps schema (tried steps w))).batches,
      Sendable schema batch) :
    fittingSteps schema (tried steps w) = steps.takeWhile (fits schema) := by
  induction steps generalizing w p with
  | nil => rfl
  | cons s steps ih =>
    have hstep := step_accounted h ha s
    rw [tried, fittingSteps_cons] at hb ⊢
    by_cases hfits : fits schema s = true
    · rw [if_pos hfits] at hstep hb ⊢
      have hinitial := Progress.batches_run threshold (p.step threshold s)
      have hok := hstep.2 fun batch hbatch => hb batch ((hinitial _).subset hbatch)
      rcases hrun : runStep s w with ⟨result, w'⟩
      rw [hrun] at hstep hok hb
      obtain rfl : result = .ok () := hok
      rw [List.takeWhile_cons_of_pos hfits]
      exact congrArg (s :: ·) (ih hstep.1 hb)
    · rw [if_neg hfits] at hstep
      obtain ⟨e, hrun⟩ := hstep
      rw [if_neg hfits, List.takeWhile_cons_of_neg hfits, hrun]
      rfl

/-- A run makes the progress of the steps that are tried and whose rows fit. -/
theorem run_accounted (h : Accounted schema threshold start w p)
    (ha : frameOf schema.toJson.bytes = .ok (frameBytes schema.toJson.bytes))
    (calls : List Call) :
    Accounted schema threshold start (goOn calls w)
      (p.run threshold (fittingSteps schema (trace calls w))) := by
  induction calls generalizing w p with
  | nil => exact h
  | cons c calls ih =>
    have hcall := tried_accounted h ha c.steps
    rw [each_steps] at hcall
    rw [trace, fittingSteps_append, Progress.run_append]
    exact ih hcall

theorem fittingSteps_trace (h : Accounted schema threshold start w p)
    (ha : frameOf schema.toJson.bytes = .ok (frameBytes schema.toJson.bytes))
    {calls : List Call}
    (hb : ∀ batch ∈ (p.run threshold (fittingSteps schema (trace calls w))).batches,
      Sendable schema batch) :
    fittingSteps schema (trace calls w) = calls.flatMap (Call.fittingSteps schema) := by
  induction calls generalizing w p with
  | nil => rfl
  | cons c calls ih =>
    have hcall := tried_accounted h ha c.steps
    rw [each_steps] at hcall
    rw [trace, fittingSteps_append, Progress.run_append] at hb
    have hinitial := Progress.batches_run threshold
      (p.run threshold (fittingSteps schema (tried c.steps w)))
    have hfirst := fittingSteps_tried h ha
      fun batch hbatch => hb batch ((hinitial _).subset hbatch)
    rw [trace, fittingSteps_append, hfirst, List.flatMap_cons, ih hcall hb]
    rfl

theorem reduceOption_fittingSteps (schema : Schema) (calls : List Call) :
    (calls.flatMap (Call.fittingSteps schema)).reduceOption =
      calls.flatMap (Call.fitting schema) := by
  induction calls with
  | nil => rfl
  | cons c calls ih =>
    rw [List.flatMap_cons, List.reduceOption_append, c.reduceOption_fittingSteps, ih,
      List.flatMap_cons]

/-! ### What the accounts say -/

theorem sendable_of_writable {batch : List Row} (h : Writable schema batch) :
    Sendable schema batch :=
  ⟨h.encoded, h.framed⟩

/-- A flush with nothing to write writes nothing. -/
theorem flush_idle (hsent : w.schemaSent = true) (hzero : w.buffered = 0) :
    flush w = (.ok (), w) := by
  have hsend : sendSchema w = (.ok (), w) := by
    rw [sendSchema, bind_ok (get_apply w), if_pos hsent]
    rfl
  have hempty : w.buffer.isEmpty = true := by simpa [RowGroup.isEmpty, buffered] using hzero
  rw [flush, bind_ok hsend, bind_ok (get_apply w), if_pos hempty]
  rfl

/-- Of some rows, only those up to the first that does not fit matter. -/
theorem writeRows_fitting (h : Accounted schema threshold start w p)
    (ha : frameOf schema.toJson.bytes = .ok (frameBytes schema.toJson.bytes)) (rows : List Row) :
    (writeRows rows w).2 = (writeRows (rows.takeWhile (Row.fits schema)) w).2 := by
  induction rows generalizing w p with
  | nil => rfl
  | cons row rows ih =>
    have hstep := step_accounted h ha (some row)
    by_cases hfits : row.fits schema = true
    · rw [fits, if_pos hfits] at hstep
      rw [List.takeWhile_cons_of_pos hfits, writeRows, writeRows, each_cons, each_cons]
      rcases hrun : writeRow row w with ⟨e | ⟨⟩, w'⟩
      · rw [bind_error hrun, bind_error hrun]
      · rw [runStep, hrun] at hstep
        rw [bind_ok hrun, bind_ok hrun]
        exact ih hstep.1
    · rw [fits, if_neg hfits] at hstep
      obtain ⟨e, hrun⟩ := hstep
      rw [runStep] at hrun
      rw [List.takeWhile_cons_of_neg hfits, writeRows, each_cons, bind_error hrun]
      rfl

/-- On a transport that refuses nothing, whatever a writer was asked: its batches and what waits are
the rows that were tried and fit, in order, and less rows wait than the threshold. The counter tells
how many batches went out as a whole. The transport holds nothing yet, or the announcement and
after it what went out of each batch. As long as all batches can be written, all of each goes out,
and the rows are those of each call up to the first that does not fit.

Next, a flush would leave nothing waiting, and write nothing if nothing waits; a row that does not
fit would change nothing; and a group would do what its rows up to that one do. -/
theorem accounts_settled {sink : Sink} (hsink : sink.NeverFails) {schema : Schema}
    (hschema : frameOf schema.toJson.bytes = .ok (frameBytes schema.toJson.bytes))
    (threshold : Nat) (calls : List Call) :
    let start := create sink schema threshold
    let w := goOn calls start
    ∃ batches : List (List Row),
      batches.flatten ++ w.buffer.intoRows =
        (fittingSteps schema (trace calls start)).reduceOption ∧
      w.buffered = w.buffer.intoRows.length ∧ w.buffered < max threshold 1 ∧
      (∀ batch ∈ batches, batch ≠ [] ∧ batch.length ≤ max threshold 1) ∧
      w.flushes = batches.countP (Sendable schema) ∧
      (w.schemaSent = false ∧ batches = [] ∧ w.frames.sink.pieces = sink.pieces ∨
        w.schemaSent = true ∧ w.frames.sink.pieces = sink.pieces ++
          (schema.toJson.bytes :: batches.flatMap (outgoing schema)).map frameBytes) ∧
      ((∀ batch ∈ batches, Writable schema batch) →
        batches.flatten ++ w.buffer.intoRows = calls.flatMap (Call.fitting schema) ∧
        w.flushes = batches.length ∧
        schema.toJson.bytes :: batches.flatMap (outgoing schema) =
          streamMessages schema batches) ∧
      (flush w).2.buffered = 0 ∧
      (w.schemaSent = true → w.buffered = 0 → flush w = (.ok (), w)) ∧
      (∀ row fault, row.validate schema = .error fault →
        writeRow row w = (.error (.data fault), w)) ∧
      ∀ group : RowGroup, (writeGroup group w).2 =
        (writeRows (group.intoRows.takeWhile (Row.fits schema)) w).2 := by
  intro start w
  let steps := fittingSteps schema (trace calls start)
  let p := Progress.run (max threshold 1) {} steps
  have haccounted : Accounted schema (max threshold 1) sink.pieces w p :=
    run_accounted (create_accounted hsink schema threshold) hschema calls
  have hpos : 0 < max threshold 1 :=
    Nat.lt_of_lt_of_le Nat.zero_lt_one (Nat.le_max_right threshold 1)
  have hwithin : p.Within (max threshold 1) := Progress.Within.run ⟨by simp, hpos⟩ steps
  have hpending : w.buffer.intoRows = p.pending := by
    rw [haccounted.buffer_eq, RowGroup.intoRows_collected haccounted.valid]
  have hbuffered : w.buffered = p.pending.length := by
    rw [buffered, haccounted.buffer_eq, RowGroup.rowCount_collected]
  have hrows : p.batches.flatten ++ p.pending = steps.reduceOption :=
    Progress.rows_run (max threshold 1) {} steps
  rw [hpending]
  refine ⟨p.batches, hrows, hbuffered, hbuffered ▸ hwithin.pending_lt,
    fun batch hbatch => ⟨haccounted.batches_ne batch hbatch, hwithin.batches_le batch hbatch⟩,
    haccounted.flushes_eq, ?_, fun hwritable => ?_, ?_, flush_idle, fun row fault hrow => ?_,
    fun group => writeRows_fitting haccounted hschema group.intoRows⟩
  · cases hsent : w.schemaSent with
    | false => exact .inl ⟨rfl, haccounted.unsent hsent⟩
    | true => exact .inr ⟨rfl, haccounted.sent hsent⟩
  · have hsendable : ∀ batch ∈ p.batches, Sendable schema batch :=
      fun batch hbatch => sendable_of_writable (hwritable batch hbatch)
    have hsteps := fittingSteps_trace (create_accounted hsink schema threshold) hschema hsendable
    refine ⟨?_, ?_, ?_⟩
    · rw [hrows, ← reduceOption_fittingSteps, ← hsteps]
    · rw [haccounted.flushes_eq]
      exact List.countP_eq_length.mpr fun batch hbatch => decide_eq_true (hsendable batch hbatch)
    · rw [streamMessages]
      exact congrArg _ (List.flatMap_congr fun batch hbatch =>
        outgoing_sendable (hsendable batch hbatch))
  · have hflushed := (flush_accounted haccounted hschema).1
    rw [buffered, hflushed.buffer_eq, Progress.pending_flush]
    rfl
  · rw [← haccounted.schema_eq] at hrow
    exact writeRow_unfit hrow

/-- A group with an absent value in its middle: its first row completes a batch, and the row behind
the absent value is not taken. -/
theorem accounts_settled_halted_group :
    let row (n : Int64) : Row := { vals := [.int64 n] }
    let group : RowGroup :=
      { rowCount := 3, columns := [[.int64 2, .null, .int64 3]], keyColumns := [] }
    let schema : Schema := { fields := [⟨"n", .int64, false⟩] }
    let w := goOn [.row (row 1), .group group, .row (row 4)] (create {} schema 2)
    ∃ batches : List (List Row),
      batches.flatten ++ w.buffer.intoRows = [row 1, row 2, row 4] ∧
        w.flushes = batches.countP (Sendable schema) := by
  intro row group schema w
  have hschema : frameOf schema.toJson.bytes = .ok (frameBytes schema.toJson.bytes) := by
    decide +kernel
  have hrows : (fittingSteps schema (trace [.row (row 1), .group group, .row (row 4)]
      (create {} schema 2))).reduceOption = [row 1, row 2, row 4] := by
    decide +kernel
  obtain ⟨batches, hbatches, -, -, -, hflushes, -⟩ :=
    @accounts_settled {} (fun _ _ => rfl) schema hschema 2
      [.row (row 1), .group group, .row (row 4)]
  exact ⟨batches, hbatches.trans hrows, hflushes⟩

end RowWriter

end StagedQuery

import StagedQuery.Proofs.Stream.Portable
import StagedQuery.Proofs.Stream.Unended
import StagedQuery.Proofs.Wire.Limits

/-!
# Thresholds

A writer cuts rows into batches by their number, and a reader looks at the size of messages. So
whether a reader of the query gets the rows of a stream back depends on where its batches are cut.

A session that succeeds has written all of its batches (`RowWriter.session_eq_ok`), and a reader
that comes to a clean end has accepted every message of the stream (`RowReader.drain_passes`). So
the rows come back exactly if all messages pass (`QuerySettings.readsBack_iff`). If they do with one
threshold, then the rows and the announcement are no obstacle, and with another threshold only the
messages of the batches can be (`QuerySettings.readsBack_threshold`); and they can be
(`QuerySettings.not_readsBack_threshold`).
-/

namespace StagedQuery

open StagedQuery.Action

/-! ### Sessions that succeed -/

/-- A batch that went out as a whole could be written. -/
theorem Attempt.Made.writable {schema : Schema} {a : Attempt} (h : a.Made schema)
    (hw : a.Whole schema) : Writable schema a.rows := by
  have hfits := RowGroup.fits_collected h.valid
  obtain ⟨hlength, hcountable⟩ := RowGroup.countable_of_encode hfits hw.encoded
  have hout : a.outgoing schema = a.messages schema := by
    rw [Attempt.outgoing, hw.sent_eq, List.take_length]
  refine ⟨h.valid, fun row hrow v hv => ?_, ?_, fun m hm => h.framed m (hout ▸ hm)⟩
  · rw [← RowGroup.intoRows_collected h.valid] at hrow
    obtain ⟨column, hc, hmem⟩ := hfits.mem_columns hrow hv
    exact hcountable column hc v hmem
  · rwa [RowGroup.rowCount_collected] at hlength

/-- The progress that the books tell of. -/
def Books.progress (b : Books) : Progress where
  batches := b.attempts.map (·.rows)
  pending := b.pending

/-- What waited is a batch now, if anything waited. -/
theorem Books.progress_flush {schema : Schema} {b : Books} {attempt : Option Attempt}
    (hmade : ∀ a ∈ attempt, a.Made schema) (hrows : b.pending = attempt.toList.flatMap (·.rows)) :
    Books.progress { attempts := b.attempts ++ attempt.toList } = b.progress.flush := by
  cases attempt with
  | none =>
    have hnone : b.progress.pending = [] := hrows
    rw [Progress.flush, if_pos hnone, progress, progress, hrows]
    simp
  | some a =>
    have hall : b.progress.pending = a.rows := by simpa [progress] using hrows
    have hsome : b.progress.pending ≠ [] := by
      rw [hall]
      exact (hmade a rfl).rows_ne
    rw [Progress.flush, if_neg hsome, hall]
    simp [progress]

namespace RowWriter

/-! ### The threshold stays -/

theorem always_runStep (s : Option Row) : Always Alike (runStep s) := by
  cases s with
  | none => exact always_flush
  | some row =>
    refine .bind always_get fun w => .bind (always_ofExcept _) fun buffer => ?_
    refine .bind (always_modify fun _ => ⟨rfl, rfl⟩) fun _ => ?_
    split
    · exact always_flush
    · exact always_pure _

/-! ### What a run that succeeds has written -/

/-- All batches of the books are out. -/
structure Complete (schema : Schema) (start : Bytes) (w : RowWriter) (b : Books) : Prop where
  records : Records schema start w b
  whole : ∀ a ∈ b.attempts, a.Whole schema

variable {schema : Schema} {start : Bytes} {threshold : Nat} {w w' : RowWriter} {b : Books}

theorem flush_complete (h : Complete schema start w b) (hflush : flush w = (.ok (), w')) :
    ∃ b', Complete schema start w' b' ∧ b'.progress = b.progress.flush := by
  obtain ⟨pending, hrecords, hrows, hok⟩ := flush_records h.records
  rw [hflush] at hrecords hok
  obtain ⟨-, rfl, hwhole⟩ := hok rfl
  rw [List.append_nil] at hrows
  refine ⟨_, ⟨hrecords, List.forall_mem_append.mpr ⟨h.whole, by simpa using hwhole⟩⟩, ?_⟩
  refine Books.progress_flush (fun a ha => hrecords.made a ?_) hrows
  exact List.mem_append_right _ (Option.mem_toList.mpr ha)

theorem step_complete (h : Complete schema start w b) (ht : w.threshold = threshold)
    {s : Option Row} (hstep : runStep s w = (.ok (), w')) :
    ∃ b', Complete schema start w' b' ∧ b'.progress = b.progress.step threshold s := by
  cases s with
  | none => exact flush_complete h hstep
  | some row =>
    rw [runStep, writeRow, bind_ok (get_apply w)] at hstep
    obtain ⟨hvalid, hpush⟩ | ⟨fault, hpush⟩ := push_cases w.buffer w.schema row
    · rw [h.records.schema_eq] at hvalid
      have hv : Complete schema start { w with buffer := w.buffer.append row }
          { b with pending := b.pending ++ [row] } := ⟨h.records.push hvalid, h.whole⟩
      have hcount : (w.buffer.append row).rowCount = (b.progress.push row).pending.length := by
        rw [h.records.buffer_eq, ← RowGroup.collected_concat, RowGroup.rowCount_collected]
        rfl
      rw [hpush] at hstep
      have hstep : (if w.threshold ≤ (w.buffer.append row).rowCount then flush else pure ())
          { w with buffer := w.buffer.append row } = (.ok (), w') := hstep
      rw [Progress.step, ← hcount, ← ht]
      by_cases hfull : w.threshold ≤ (w.buffer.append row).rowCount
      · rw [if_pos hfull] at hstep ⊢
        exact flush_complete hv hstep
      · rw [if_neg hfull] at hstep ⊢
        cases hstep
        exact ⟨_, hv, rfl⟩
    · rw [hpush] at hstep
      cases hstep

theorem each_complete (h : Complete schema start w b) (ht : w.threshold = threshold)
    {steps : List (Option Row)} (hrun : Action.each runStep steps w = (.ok (), w')) :
    ∃ b', Complete schema start w' b' ∧ b'.progress = b.progress.run threshold steps := by
  induction steps generalizing w b with
  | nil =>
    cases hrun
    exact ⟨b, h, rfl⟩
  | cons s steps ih =>
    obtain ⟨⟨⟩, v, hstep, hsteps⟩ := bind_eq_ok.mp hrun
    have hv := always_runStep s w
    rw [hstep] at hv
    obtain ⟨b', hb', hprogress⟩ := step_complete h ht hstep
    obtain ⟨b'', hb'', hlater⟩ := ih hb' (hv.threshold.trans ht) hsteps
    refine ⟨b'', hb'', ?_⟩
    rw [hlater, hprogress]
    rfl

/-- A session that succeeds has written the stream of its batches. -/
theorem session_eq_ok {sink : Sink} {calls : List Call}
    (h : session calls (create sink schema threshold) = (.ok (), w)) :
    frameOf schema.toJson.bytes = .ok (frameBytes schema.toJson.bytes) ∧
      (∀ batch ∈ batches threshold calls, Writable schema batch) ∧
      w.frames.sink.bytes = sink.bytes ++ streamBytes schema (batches threshold calls) := by
  obtain ⟨⟨⟩, v, hrun, hclose⟩ := bind_eq_ok.mp h
  rw [each_run] at hrun
  have hstart : Complete schema sink.bytes (create sink schema threshold) {} :=
    ⟨create_records sink schema threshold, by simp⟩
  obtain ⟨b, hb, hprogress⟩ := each_complete hstart rfl hrun
  obtain ⟨hpending, hwhole, stream, hbytes, hended⟩ := close_records hb.records hclose
  have hmade : ∀ a ∈ v.attempt, a.Made schema := fun a ha =>
    hended.made a (List.mem_append_right _ (Option.mem_toList.mpr ha))
  have hbatches : batches threshold calls =
      (b.attempts ++ v.attempt.toList).map (·.rows) := by
    have hrun : b.progress = Progress.run (max threshold 1) {} (calls.flatMap Call.steps) :=
      hprogress
    rw [batches, ← hrun, ← Books.progress_flush hmade hpending]
    rfl
  have hwhole : ∀ a ∈ b.attempts ++ v.attempt.toList, a.Whole schema :=
    List.forall_mem_append.mpr ⟨hb.whole, by simpa using hwhole⟩
  refine ⟨hended.announced, ?_, ?_⟩
  · rw [hbatches, List.forall_mem_map]
    exact fun a ha => (hended.made a ha).writable (hwhole a ha)
  · rw [hbytes, hended.stream_eq, hbatches, sentMessages, streamBytes, streamMessages,
      RowReader.outgoing_whole fun a ha _ => hwhole a ha, List.flatMap_map,
      List.filter_eq_self.mpr fun a ha => decide_eq_true (hwhole a ha).sent_pos]
    rfl

end RowWriter

/-! ### What a reader has accepted -/

namespace FrameReader

variable {r r' : FrameReader}

theorem facing_of_rest {bytes : Bytes} (h : r.rest = bytes) : r.facing bytes = r := by
  rw [← h]
  rfl

/-- A message that was read is one that passes. -/
theorem passes_of_readFrame {m rest : Bytes} {f : Frame} (hm : frameOf m = .ok (frameBytes m))
    (hf : r.finished = false) (hrest : r.rest = frameBytes m ++ rest)
    (h : readFrame r = (.ok f, r')) : Passes r.maxMessage m := by
  have hfaces : r.Faces (frameBytes m ++ rest) := ⟨hf, hrest ▸ List.prefix_refl _⟩
  obtain ⟨rfl, rest', hprefix, rfl⟩ := readFrame_first hm hfaces h
  obtain ⟨hmessage, hblock⟩ := length_of_readFrame h
  rw [hrest, List.length_append] at hblock
  have hle : (r.facing rest').rest.length ≤ rest.length := hprefix.length_le
  exact ⟨hm, by omega, hmessage⟩

/-- The reader has read some of the messages of a stream, and they pass. -/
structure Accepting (ms : List Bytes) (limit : Nat) (r : FrameReader) : Prop where
  limit_eq : r.maxMessage = limit
  split : ∃ front back, ms = front ++ back ∧ (∀ m ∈ front, Passes limit m) ∧
    (r.finished = false ∧ r.rest = framed back ++ endMarker ∨ r.finished = true ∧ back = [])

/-- Behind the last message comes the marker, so all messages have passed where the stream
ends. -/
theorem keeps_accepting {ms : List Bytes} {limit : Nat}
    (hms : ∀ m ∈ ms, frameOf m = .ok (frameBytes m)) :
    Keeps (Accepting ms limit) (∀ m ∈ ms, Passes limit m) (fun _ => True) where
  readFrame :=
    { ok := by
        rintro r f r' ⟨rfl, front, back, rfl, hfront, ⟨hf, hrest⟩ | ⟨hf, rfl⟩⟩ h
        · cases back with
          | nil =>
            have hmarker := readFrame_marker hf []
            rw [facing_of_rest (by rw [hrest]; rfl), h] at hmarker
            cases hmarker
            rw [List.append_nil]
            exact ⟨fun _ => hfront, rfl, front, [], (List.append_nil _).symm, hfront,
              .inr ⟨rfl, rfl⟩⟩
          | cons m back =>
            have hm := hms m (List.mem_append_right _ List.mem_cons_self)
            rw [framed_cons, List.append_assoc] at hrest
            have hpasses := passes_of_readFrame hm hf hrest h
            have hread := readFrame_message hf hpasses (framed back ++ endMarker)
            rw [facing_of_rest hrest, h] at hread
            cases hread
            refine ⟨Frame.noConfusion, rfl, front ++ [m], back, by simp, ?_, .inl ⟨hf, rfl⟩⟩
            exact List.forall_mem_append.mpr ⟨hfront, List.forall_mem_singleton.mpr hpasses⟩
        · rw [readFrame_finished hf] at h
          cases h
          rw [List.append_nil]
          exact ⟨fun _ => hfront, rfl, front, [], (List.append_nil _).symm, hfront, .inr ⟨hf, rfl⟩⟩
      error := fun _ _ _ _ _ => trivial }
  other := fun _ _ => trivial

end FrameReader

/-- A reader that comes to a clean end has accepted every message. -/
theorem RowReader.drain_passes {r : RowReader} {ms : List Bytes}
    (hms : ∀ m ∈ ms, frameOf m = .ok (frameBytes m)) (hf : r.frames.finished = false)
    (hrest : r.frames.rest = framed ms ++ endMarker) (hclean : (drain r).1.fault = none) :
    ∀ m ∈ ms, Passes r.frames.maxMessage m := by
  have hstart : FrameReader.Accepting ms r.frames.maxMessage r.frames :=
    ⟨rfl, [], ms, rfl, fun m hm => absurd hm List.not_mem_nil, .inl ⟨hf, hrest⟩⟩
  exact (((FrameReader.keeps_accepting hms).drain hstart).1 hclean).1

/-! ### Thresholds -/

namespace QuerySettings

/-- The batches into which an executor of the query cuts some rows. -/
def batches (config : QuerySettings) (rows : List Row) : List (List Row) :=
  RowWriter.batches config.flushThreshold (rows.map .row)

/-- A writer of the query writes the rows and can be closed, and a reader of the query gets them
back. -/
def ReadsBack (config : QuerySettings) (schema : Schema) (rows : List Row) : Prop :=
  ∃ w r, RowWriter.session (rows.map .row) (config.writer schema {}) = (.ok (), w) ∧
    RowReader.readAll (config.reader w.frames.sink) = (.ok rows, r)

variable {config : QuerySettings} {schema : Schema} {rows : List Row}

theorem flatten_batches : (config.batches rows).flatten = rows := by
  rw [batches, RowWriter.flatten_batches, RowWriter.Call.flatMap_rows_row]

theorem mem_rows_iff (config : QuerySettings) {row : Row} :
    row ∈ rows ↔ ∃ batch ∈ config.batches rows, row ∈ batch := by
  rw [← List.mem_flatten, flatten_batches]

/-- Whatever a reader of the query gets as a whole from a session that succeeds, are the rows; and
then every message has passed. -/
theorem eq_of_readAll {w : RowWriter} {r : RowReader} {found : List Row}
    (hwrite : RowWriter.session (rows.map .row) (config.writer schema {}) = (.ok (), w))
    (hread : RowReader.readAll (config.reader w.frames.sink) = (.ok found, r)) :
    found = rows ∧
      ∀ m ∈ streamMessages schema (config.batches rows), Passes config.maxMessageSize m := by
  obtain ⟨hannounced, hwritable, hbytes⟩ := RowWriter.session_eq_ok hwrite
  rw [show ({} : Sink).bytes = [] from rfl, List.nil_append] at hbytes
  have hframed : ∀ m ∈ streamMessages schema (config.batches rows),
      frameOf m = .ok (frameBytes m) := by
    refine List.forall_mem_cons.mpr ⟨hannounced, fun m hm => ?_⟩
    obtain ⟨batch, hb, hm⟩ := List.mem_flatMap.mp hm
    exact (hwritable batch hb).framed m hm
  obtain ⟨hclean, hfound, -⟩ := RowReader.readAll_eq_ok.mp hread
  have hpasses : ∀ m ∈ streamMessages schema (config.batches rows),
      Passes config.maxMessageSize m := RowReader.drain_passes hframed rfl hbytes hclean
  have hdrain := drain_reader hbytes hpasses fun batch hb =>
    ⟨hwritable batch hb, RowWriter.length_le_of_mem_batches hb⟩
  exact ⟨hfound.trans (hdrain.2.trans flatten_batches), hpasses⟩

/-- The rows come back exactly if they fit, they and their batches can be counted, and every message
of the stream passes. -/
theorem readsBack_iff : config.ReadsBack schema rows ↔
    (∀ row ∈ rows, row.validate schema = .ok () ∧ row.Countable) ∧
      (∀ batch ∈ config.batches rows, batch.length < 0x80000000) ∧
        ∀ m ∈ streamMessages schema (config.batches rows), Passes config.maxMessageSize m := by
  constructor
  · rintro ⟨w, r, hwrite, hread⟩
    obtain ⟨-, hwritable, -⟩ := RowWriter.session_eq_ok hwrite
    refine ⟨fun row hrow => ?_, fun batch hb => (hwritable batch hb).length_lt,
      (eq_of_readAll hwrite hread).2⟩
    obtain ⟨batch, hb, hmem⟩ := (mem_rows_iff config).mp hrow
    exact ⟨(hwritable batch hb).valid row hmem, (hwritable batch hb).countable row hmem⟩
  · rintro ⟨hrows, hlength, hpasses⟩
    have hwritable : ∀ batch ∈ config.batches rows, Writable schema batch := by
      intro batch hb
      have hmem : ∀ row ∈ batch, row.validate schema = .ok () ∧ row.Countable :=
        fun row hrow => hrows row ((mem_rows_iff config).mpr ⟨batch, hb, hrow⟩)
      refine ⟨fun row hrow => (hmem row hrow).1, fun row hrow => (hmem row hrow).2,
        hlength batch hb, fun m hm => ?_⟩
      exact (hpasses m (List.mem_cons_of_mem _ (List.mem_flatMap.mpr ⟨batch, hb, hm⟩))).framed
    obtain ⟨w, hsession, hbytes⟩ := session_rows (hpasses _ List.mem_cons_self).framed hwritable
    obtain ⟨hclean, hread⟩ := drain_reader hbytes hpasses fun batch hb =>
      ⟨hwritable batch hb, RowWriter.length_le_of_mem_batches hb⟩
    have hread : config.read w.frames.sink = rows := hread.trans flatten_batches
    exact ⟨w, _, hsession, RowReader.readAll_eq_ok.mpr ⟨hclean, hread.symm, rfl⟩⟩

/-- If the rows come back with one threshold, then with another one they come back exactly if no
batch is too long to be counted and all messages of the batches pass. And whatever comes back as a
whole are the rows: the threshold never changes them. -/
theorem readsBack_threshold {first second : Nat}
    (h : { config with flushThreshold := first }.ReadsBack schema rows) :
    let config' := { config with flushThreshold := second }
    (config'.ReadsBack schema rows ↔ ∀ batch ∈ RowWriter.batches second (rows.map .row),
      batch.length < 0x80000000 ∧
        ∀ m ∈ (RowGroup.collected schema batch).messages schema,
          Passes config.maxMessageSize m) ∧
      ∀ w r found,
        RowWriter.session (rows.map .row) (config'.writer schema {}) = (.ok (), w) →
          RowReader.readAll (config'.reader w.frames.sink) = (.ok found, r) → found = rows := by
  intro config'
  obtain ⟨hrows, -, hpasses⟩ := readsBack_iff.mp h
  refine ⟨?_, fun w r found hwrite hread => (eq_of_readAll hwrite hread).1⟩
  rw [readsBack_iff]
  constructor
  · rintro ⟨-, hlength, hpasses'⟩ batch hb
    refine ⟨hlength batch hb, fun m hm => ?_⟩
    exact hpasses' m (List.mem_cons_of_mem _ (List.mem_flatMap.mpr ⟨batch, hb, hm⟩))
  · intro hbatches
    -- The announcement is the same, and so are the rows; only the batches are others.
    refine ⟨hrows, fun batch hb => (hbatches batch hb).1,
      List.forall_mem_cons.mpr ⟨hpasses _ List.mem_cons_self, fun m hm => ?_⟩⟩
    obtain ⟨batch, hb, hm⟩ := List.mem_flatMap.mp hm
    exact (hbatches batch hb).2 m hm

/-- Two numbers, one in each batch and then both in one. -/
theorem readsBack_threshold_numbers :
    let config : QuerySettings := { queryId := ⟨0⟩, maxMessageSize := 90 }
    let schema : Schema := { fields := [⟨"n", .int64, false⟩] }
    let rows : List Row := [{ vals := [.int64 1] }, { vals := [.int64 2] }]
    { config with flushThreshold := 1 }.ReadsBack schema rows ∧
      { config with flushThreshold := 2 }.ReadsBack schema rows := by
  intro config schema rows
  have hone : { config with flushThreshold := 1 }.ReadsBack schema rows :=
    readsBack_iff.mpr (by decide +kernel)
  exact ⟨hone, (readsBack_threshold hone).1.mpr (by decide +kernel)⟩

/-- Two texts of forty bytes make a batch of which the values take 92 bytes, which is too long for a
reader that accepts each text alone. -/
theorem not_readsBack_threshold :
    ¬ ∀ (config : QuerySettings) (schema : Schema) (rows : List Row) (first second : Nat),
      1 ≤ first → 1 ≤ second → (∀ row ∈ rows, row.validate schema = .ok ()) →
        { config with flushThreshold := first }.ReadsBack schema rows →
          { config with flushThreshold := second }.ReadsBack schema rows := by
  intro hall
  let config : QuerySettings := { queryId := ⟨0⟩, maxMessageSize := 90 }
  let schema : Schema := { fields := [⟨"t", .utf8, false⟩] }
  let row : Row := { vals := [.utf8 "0123456789012345678901234567890123456789"] }
  have hone : { config with flushThreshold := 1 }.ReadsBack schema [row, row] :=
    readsBack_iff.mpr (by decide +kernel)
  have hvalid : ∀ r ∈ [row, row], r.validate schema = .ok () := by decide +kernel
  obtain ⟨-, -, hpasses⟩ :=
    readsBack_iff.mp (hall config schema [row, row] 1 2 (by decide) (by decide) hvalid hone)
  have hlong : ¬ ∀ m ∈ streamMessages schema
      (batches { config with flushThreshold := 2 } [row, row]), m.length ≤ 90 := by decide +kernel
  exact hlong fun m hm => (hpasses m hm).message_le

end QuerySettings

end StagedQuery

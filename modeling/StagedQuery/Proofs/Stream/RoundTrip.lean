import StagedQuery.Proofs.Stream.Writer

/-!
# Row streams come out as they went in

A writer that is given rows, groups and flushes in any order and is then closed leaves a stream
on its transport from which a reader gets the schema and exactly the rows, in order
(`RowWriter.readAll_session`). Where the batches are cut does not show in the rows.

What is asked for: the rows fit the schema, every text and every batch can be counted by a signed
word, every message has a frame that the reader accepts, and the reader accepts batches as long
as the threshold.
-/

namespace StagedQuery

/-- The stream of some batches: the frames of its messages, and the marker. -/
def streamBytes (schema : Schema) (batches : List (List Row)) : Bytes :=
  framed (streamMessages schema batches) ++ endMarker

namespace RowWriter

/-- Make some calls, one after the other, and close the writer. -/
def session (calls : List Call) : Action RowWriter Unit := do
  Action.each Call.run calls
  close

/-- The batches of a session. -/
def batches (threshold : Nat) (calls : List Call) : List (List Row) :=
  (Progress.run (max threshold 1) {} (calls.flatMap Call.steps)).flush.batches

/-! ### The session of a writer -/

theorem each_map_some (rows : List Row) : Action.each runStep (rows.map some) = writeRows rows := by
  induction rows with
  | nil => rfl
  | cons row rows ih => rw [List.map_cons, Action.each_cons, ih]; rfl

theorem each_steps (c : Call) : Action.each runStep c.steps = c.run := by
  cases c with
  | row r => exact bind_pure (writeRow r)
  | group g => exact each_map_some g.intoRows
  | flush => exact bind_pure flush

theorem each_run (calls : List Call) :
    Action.each Call.run calls = Action.each runStep (calls.flatMap Call.steps) := by
  induction calls with
  | nil => rfl
  | cons c calls ih => rw [List.flatMap_cons, Action.each_append, each_steps, Action.each_cons, ih]

theorem reduceOption_flatMap_steps (calls : List Call) :
    (calls.flatMap Call.steps).reduceOption = calls.flatMap Call.rows := by
  induction calls with
  | nil => rfl
  | cons c calls ih =>
    rw [List.flatMap_cons, List.reduceOption_append, ih, Call.reduceOption_steps,
      List.flatMap_cons]

theorem flatten_batches (threshold : Nat) (calls : List Call) :
    (batches threshold calls).flatten = calls.flatMap Call.rows := by
  have h := Progress.rows_run (max threshold 1) {} (calls.flatMap Call.steps)
  rw [← Progress.rows_flush, Progress.rows, Progress.pending_flush, List.append_nil] at h
  rw [batches, h, reduceOption_flatMap_steps]
  rfl

theorem length_le_of_mem_batches {threshold : Nat} {calls : List Call} {batch : List Row}
    (h : batch ∈ batches threshold calls) : batch.length ≤ max threshold 1 := by
  have hstart : Progress.Within (max threshold 1) {} :=
    ⟨fun _ hb => absurd hb List.not_mem_nil, Nat.lt_of_lt_of_le Nat.one_pos (Nat.le_max_right ..)⟩
  have hrun := hstart.run (calls.flatMap Call.steps)
  exact Progress.batches_flush_le hrun.batches_le (Nat.le_of_lt hrun.pending_lt) batch h

theorem create_tracks {sink : Sink} (hs : sink.NeverFails) (schema : Schema) (threshold : Nat) :
    Tracks schema (max threshold 1) sink.bytes (create sink schema threshold) {} where
  schema_eq := rfl
  threshold_eq := rfl
  buffer_eq := rfl
  unfinished := rfl
  neverFails := hs
  unsent := fun _ => ⟨rfl, rfl⟩
  sent := fun h => Bool.noConfusion h

/-- A session puts the stream of its batches onto the transport. -/
theorem session_eq {sink : Sink} (hsink : sink.NeverFails) {schema : Schema} {threshold : Nat}
    {calls : List Call} (hvalid : ∀ row ∈ calls.flatMap Call.rows, row.validate schema = .ok ())
    (ha : frameOf schema.toJson.bytes = .ok (frameBytes schema.toJson.bytes))
    (hb : ∀ batch ∈ batches threshold calls, Writable schema batch) :
    ∃ w, session calls (create sink schema threshold) = (.ok (), w) ∧
      w.frames.sink.bytes = sink.bytes ++ streamBytes schema (batches threshold calls) := by
  have hlater := Progress.batches_flush
    (Progress.run (max threshold 1) {} (calls.flatMap Call.steps))
  obtain ⟨v, hrun, hv⟩ := each_tracks (create_tracks hsink schema threshold) ha
    (by rwa [reduceOption_flatMap_steps]) fun batch hbatch => hb batch (hlater.subset hbatch)
  obtain ⟨u, hflush, hsent, hu⟩ := flush_tracks hv ha fun hne => hb _ (by
    rw [batches, Progress.flush, if_neg hne]
    exact List.mem_append_right _ List.mem_cons_self)
  obtain ⟨sink', hclose, hbytes⟩ := FrameWriter.close_eq hu.unfinished hu.neverFails
  have hend : close v = (.ok (), { u with frames := { sink := sink', finished := true } }) := by
    rw [close, Action.bind_ok (Action.get_apply v), if_neg (by simp [hv.unfinished]),
      Action.bind_ok hflush]
    exact onFrames_eq hclose
  refine ⟨_, (Action.bind_ok (by rw [each_run]; exact hrun)).trans hend, ?_⟩
  rw [hbytes, hu.sent hsent, streamBytes, List.append_assoc]
  rfl

end RowWriter

namespace RowReader

/-! ### Reading the stream -/

theorem checkSchema_of_shape {expected : Option Schema} {schema : Schema}
    (h : ∀ e, expected = some e → e.shape = schema.shape) :
    checkSchema expected schema = .ok () := by
  cases expected with
  | none => rfl
  | some e => exact if_pos (h e rfl)

theorem flatMap_intoRows_collected {schema : Schema} {batches : List (List Row)}
    (h : ∀ batch ∈ batches, ∀ row ∈ batch, row.validate schema = .ok ()) :
    (batches.map (RowGroup.collected schema)).flatMap RowGroup.intoRows = batches.flatten := by
  induction batches with
  | nil => rfl
  | cons batch batches ih =>
    rw [List.map_cons, List.flatMap_cons, List.flatten_cons,
      RowGroup.intoRows_collected (h batch List.mem_cons_self),
      ih fun b hb => h b (List.mem_cons_of_mem _ hb)]

/-- The batches of a stream, and the reader behind its marker. -/
theorem drain_stream {r : RowReader} {schema : Schema} {batches : List (List Row)}
    (hs : r.schema = none) (hc : checkSchema r.expected schema = .ok ())
    (hf : r.frames.finished = false)
    (hp : ∀ m ∈ streamMessages schema batches, Passes r.frames.maxMessage m)
    (hb : ∀ batch ∈ batches, Writable schema batch ∧ batch.length ≤ r.maxRows) (rest : Bytes) :
    ∃ r₁, readSchema (r.facing (streamBytes schema batches ++ rest)) = (.ok schema, r₁) ∧
      r₁.schema = some schema ∧ r₁.current = r.current ∧
      drain r₁ = ({ batches := batches.map (RowGroup.collected schema), fault := none },
        { r.past rest with schema := some schema }) := by
  let body := framed (batches.flatMap fun b => (RowGroup.collected schema b).messages schema) ++
    (endMarker ++ rest)
  have hannounced := readSchema_announced hs hc hf (hp _ List.mem_cons_self) body
  have haccepts : ∀ g ∈ batches.map (RowGroup.collected schema),
      RowReader.Accepts { r with schema := some schema } schema g := by
    intro g hg
    obtain ⟨batch, hbatch, rfl⟩ := List.mem_map.mp hg
    obtain ⟨hw, hle⟩ := hb batch hbatch
    refine ⟨RowGroup.fits_collected hw.valid, hw.encoded, ?_, fun m hm => ?_⟩
    · rwa [RowGroup.rowCount_collected]
    · exact hp m (List.mem_cons_of_mem _ (List.mem_flatMap.mpr ⟨batch, hbatch, hm⟩))
  have hdrain := drain_groups rfl haccepts hf rest
  rw [List.flatMap_map] at hdrain
  refine ⟨{ r.facing body with schema := some schema }, ?_, rfl, rfl, hdrain⟩
  rw [streamBytes, streamMessages, framed_cons, List.append_assoc, List.append_assoc]
  exact hannounced

theorem readAll_of_drain {r r' : RowReader} {groups : List RowGroup}
    (h : drain r = ({ batches := groups, fault := none }, r')) :
    readAll r =
      (.ok (r.current ++ groups.flatMap RowGroup.intoRows), { r' with current := [] }) := by
  simp only [readAll, h]

/-- Reading everything succeeds where the stream ends. -/
theorem readAll_eq_ok {r r' : RowReader} {rows : List Row} :
    readAll r = (.ok rows, r') ↔ (drain r).1.fault = none ∧
      rows = r.current ++ (drain r).1.rows ∧ r' = { (drain r).2 with current := [] } := by
  rcases hdrain : drain r with ⟨⟨groups, _ | e⟩, s⟩
  · rw [readAll_of_drain hdrain, Prod.mk.injEq, Except.ok.injEq, eq_comm, @eq_comm _ r']
    exact (and_iff_right rfl).symm
  · simp [readAll, hdrain]

end RowReader

/-- The round trip: a session on a transport that takes everything leaves a stream there from
which a reader gets the schema and exactly the rows that were written, whether it asks for the
schema first or not. After that the reader is at the end, where it stays: every further row and
every further batch is none, and asking for them changes nothing. -/
theorem RowWriter.readAll_session {sink : Sink} {schema : Schema} {threshold : Nat}
    {calls : List Call} {maxMessage maxRows : Nat} {expected : Option Schema}
    (hsink : sink.NeverFails)
    (hvalid : ∀ row ∈ calls.flatMap Call.rows, row.validate schema = .ok ())
    (htexts : ∀ row ∈ calls.flatMap Call.rows, row.Countable)
    (hbatches : ∀ batch ∈ batches threshold calls, batch.length < 0x80000000)
    (hpasses : ∀ m ∈ streamMessages schema (batches threshold calls), Passes maxMessage m)
    (hrows : max threshold 1 ≤ maxRows)
    (hexpected : ∀ e, expected = some e → e.shape = schema.shape) :
    ∃ w stream, session calls (create sink schema threshold) = (.ok (), w) ∧
      w.frames.sink.bytes = sink.bytes ++ stream ∧
      stream = streamBytes schema (batches threshold calls) ∧
      ∃ r₁ r₂,
        let r : RowReader := { frames := { rest := stream, maxMessage }, expected, maxRows }
        RowReader.readSchema r = (.ok schema, r₁) ∧
        RowReader.readAll r = (.ok (calls.flatMap Call.rows), r₂) ∧
        RowReader.readAll r₁ = (.ok (calls.flatMap Call.rows), r₂) ∧
        RowReader.readSchema r₂ = (.ok schema, r₂) ∧
        RowReader.readRow r₂ = (.ok none, r₂) ∧
        RowReader.readGroup r₂ = (.ok none, r₂) := by
  have hmem {batch : List Row} (hb : batch ∈ batches threshold calls) :
      ∀ row ∈ batch, row ∈ calls.flatMap Call.rows := by
    intro row hrow
    rw [← flatten_batches threshold calls]
    exact List.mem_flatten.mpr ⟨batch, hb, hrow⟩
  have hwritable : ∀ batch ∈ batches threshold calls, Writable schema batch := by
    intro batch hb
    refine ⟨fun row hrow => hvalid row (hmem hb row hrow),
      fun row hrow => htexts row (hmem hb row hrow), hbatches batch hb, fun m hm => ?_⟩
    exact (hpasses m (List.mem_cons_of_mem _ (List.mem_flatMap.mpr ⟨batch, hb, hm⟩))).framed
  obtain ⟨w, hsession, hbytes⟩ :=
    session_eq hsink hvalid (hpasses _ List.mem_cons_self).framed hwritable
  let r : RowReader := { frames := { rest := [], maxMessage }, expected, maxRows }
  obtain ⟨r₁, hschema, hknown, hcurrent, hdrain⟩ :=
    RowReader.drain_stream (r := r) rfl (RowReader.checkSchema_of_shape hexpected) rfl hpasses
      (fun batch hb => ⟨hwritable batch hb,
        Nat.le_trans (length_le_of_mem_batches hb) hrows⟩) []
  rw [List.append_nil] at hschema
  have hdrain' := (RowReader.drain_congr (RowReader.readGroup_of_readSchema hschema hknown)).trans
    hdrain
  have hall : (batches threshold calls).flatten = _ := flatten_batches threshold calls
  have hrowsOut := RowReader.flatMap_intoRows_collected fun batch hb => (hwritable batch hb).valid
  refine ⟨w, _, hsession, hbytes, rfl, r₁, { r.past [] with schema := some schema }, hschema,
    ?_, ?_, ?_, ?_, ?_⟩
  · have h := RowReader.readAll_of_drain hdrain'
    rw [hrowsOut, hall] at h
    exact h
  · have h := RowReader.readAll_of_drain hdrain
    rw [hrowsOut, hall, hcurrent] at h
    exact h
  · exact RowReader.readSchema_known rfl
  · exact RowReader.readRow_none rfl (RowReader.readGroup_finished rfl rfl)
  · exact RowReader.readGroup_finished rfl rfl

/-- A text and an absent value, with a flush between them. -/
theorem RowWriter.readAll_two_batches :
    ∃ w r, session [.row { vals := [.utf8 "a"] }, .flush, .row { vals := [.null] }]
        (create {} { fields := [⟨"n", .utf8, true⟩] } 2) = (.ok (), w) ∧
      RowReader.readAll { frames := { rest := w.frames.sink.bytes, maxMessage := 1000 } } =
        (.ok [{ vals := [.utf8 "a"] }, { vals := [.null] }], r) := by
  obtain ⟨w, stream, hsession, hbytes, -, -, r, -, hall, -⟩ :=
    @readAll_session {} { fields := [⟨"n", .utf8, true⟩] } 2
      [.row { vals := [.utf8 "a"] }, .flush, .row { vals := [.null] }] 1000 defaultMaxRows none
      (fun _ _ => rfl) (by decide) (by decide) (by decide) (by decide +kernel) (by decide)
      (by simp)
  refine ⟨w, r, hsession, ?_⟩
  rw [hbytes]
  exact hall

end StagedQuery

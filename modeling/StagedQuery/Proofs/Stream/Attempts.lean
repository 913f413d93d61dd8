import StagedQuery.Proofs.Stream.RoundTrip
import StagedQuery.Proofs.Wire.Refusal

/-!
# What a writer has tried to write

A call may fail, and the next call goes on from the state that it has left. What a writer has put
onto its transport by then is told by its `Books`: the batches that it has taken out of its
buffer, each with the number of its messages that the transport took, and the rows that still
wait. `RowWriter.Records` says that the transport holds exactly the announcement of the schema and
those messages. Every flush and every step keeps the books (`RowWriter.flush_records`,
`RowWriter.step_records`), and so does every run, whichever pieces the transport refuses
(`RowWriter.run_records`).

The books also account for the rows: each row that was appended is in a batch or still waits, in
order, and a row whose own call succeeded was appended.
-/

namespace StagedQuery

/-! ### Batches that were tried -/

/-- A batch that was taken out of the buffer, and how many of its messages the transport took. -/
structure Attempt where
  rows : List Row
  sent : Nat
  deriving DecidableEq, Repr

namespace Attempt

/-- The messages of the batch. -/
def messages (schema : Schema) (a : Attempt) : List Bytes :=
  (RowGroup.collected schema a.rows).messages schema

/-- The messages that the transport took. -/
def outgoing (schema : Schema) (a : Attempt) : List Bytes := (a.messages schema).take a.sent

/-- What holds of every batch that was tried. -/
structure Made (schema : Schema) (a : Attempt) : Prop where
  rows_ne : a.rows ≠ []
  valid : ∀ row ∈ a.rows, row.validate schema = .ok ()
  sent_le : a.sent ≤ (a.messages schema).length
  framed : ∀ m ∈ a.outgoing schema, frameOf m = .ok (frameBytes m)

/-- The transport took the whole batch. -/
structure Whole (schema : Schema) (a : Attempt) : Prop where
  encoded : (RowGroup.collected schema a.rows).encode schema = .ok (a.messages schema)
  sent_eq : a.sent = (a.messages schema).length

end Attempt

/-- The announcement of a schema and what went out of some batches. -/
def sentMessages (schema : Schema) (attempts : List Attempt) : List Bytes :=
  schema.toJson.bytes :: attempts.flatMap (Attempt.outgoing schema)

theorem sentMessages_append (schema : Schema) (attempts later : List Attempt) :
    sentMessages schema (attempts ++ later) =
      sentMessages schema attempts ++ later.flatMap (Attempt.outgoing schema) := by
  simp [sentMessages]

/-- The bytes of a stream that has ended: the frames of the announcement and of what went out of
some batches, and the marker. -/
structure Ended (schema : Schema) (attempts : List Attempt) (stream : Bytes) : Prop where
  announced : frameOf schema.toJson.bytes = .ok (frameBytes schema.toJson.bytes)
  made : ∀ a ∈ attempts, a.Made schema
  stream_eq : stream = framed (sentMessages schema attempts) ++ endMarker

/-- The books of a writer. -/
structure Books where
  attempts : List Attempt := []
  pending : List Row := []

namespace RowWriter

/-- The books `b` are those of the writer, whose transport held `start` in the beginning. -/
structure Records (schema : Schema) (start : Bytes) (w : RowWriter) (b : Books) : Prop where
  schema_eq : w.schema = schema
  buffer_eq : w.buffer = RowGroup.collected schema b.pending
  valid : ∀ row ∈ b.pending, row.validate schema = .ok ()
  unfinished : w.frames.finished = false
  made : ∀ a ∈ b.attempts, a.Made schema
  unsent : w.schemaSent = false → b.attempts = [] ∧ w.frames.sink.bytes = start
  announced : w.schemaSent = true →
    frameOf schema.toJson.bytes = .ok (frameBytes schema.toJson.bytes)
  sent : w.schemaSent = true →
    w.frames.sink.bytes = start ++ framed (sentMessages schema b.attempts)

variable {schema : Schema} {start : Bytes} {w w' : RowWriter} {b : Books}

theorem create_records (sink : Sink) (schema : Schema) (threshold : Nat) :
    Records schema sink.bytes (create sink schema threshold) {} where
  schema_eq := rfl
  buffer_eq := rfl
  valid := by simp
  unfinished := rfl
  made := by simp
  unsent := fun _ => ⟨rfl, rfl⟩
  announced := fun h => Bool.noConfusion h
  sent := fun h => Bool.noConfusion h

/-! ### Flushing -/

/-- Messages are written one after the other up to the first that is refused. -/
theorem each_writeMessage_sent (ms : List Bytes) (w : RowWriter) :
    ∃ n ≤ ms.length, ∃ result sink,
      Action.each (fun m => onFrames (FrameWriter.writeMessage m)) ms w =
        (result, { w with frames := { w.frames with sink } }) ∧
      sink.pieces = w.frames.sink.pieces ++ (ms.take n).map frameBytes ∧
      (∀ m ∈ ms.take n, frameOf m = .ok (frameBytes m)) ∧ (result = .ok () → n = ms.length) := by
  induction ms generalizing w with
  | nil => exact ⟨0, Nat.le_refl 0, .ok (), w.frames.sink, rfl, by simp, by simp, fun _ => rfl⟩
  | cons m ms ih =>
    obtain ⟨hframe, hwrite⟩ | ⟨e, offered, hwrite⟩ := FrameWriter.writeMessage_cases m w.frames
    · obtain ⟨n, hn, result, sink, heach, hpieces, hframed, hok⟩ :=
        ih { w with frames := { w.frames with sink := w.frames.sink.took (frameBytes m) } }
      refine ⟨n + 1, Nat.succ_le_succ hn, result, sink, ?_, ?_, ?_, ?_⟩
      · exact (Action.bind_ok (onFrames_eq hwrite)).trans heach
      · rw [hpieces]
        simp [Sink.took]
      · rw [List.take_succ_cons]
        exact List.forall_mem_cons.mpr ⟨hframe, hframed⟩
      · intro hresult
        rw [hok hresult, List.length_cons]
    · refine ⟨0, Nat.zero_le _, .error e, { w.frames.sink with offered }, ?_, ?_, ?_, ?_⟩
      · exact Action.bind_error (Action.zoom_apply hwrite)
      · simp
      · simp
      · intro hresult
        cases hresult

/-- The number of pieces that the transport has taken. -/
def taken (w : RowWriter) : Nat := w.frames.sink.pieces.length

/-- The batch that a flush takes out of the buffer: what waits, once the schema is out. -/
def attempt (w : RowWriter) : Option Attempt :=
  match sendSchema w with
  | (.error _, _) => none
  | (.ok (), ready) =>
    if ready.buffer.isEmpty then none
    else some { rows := ready.buffer.intoRows, sent := (flush w).2.taken - ready.taken }

/-- What a flush can do: the batch that it takes out of the buffer, its result, and the writer
afterwards. -/
inductive Flushed (w : RowWriter) : Option Attempt → Except Error Unit × RowWriter → Prop
  /-- The schema is not out, and everything waits as before. -/
  | unannounced {e : Error} {v : RowWriter} (hs : sendSchema w = (.error e, v)) :
    Flushed w none (.error e, v)
  /-- Nothing waits. -/
  | idle {v : RowWriter} (hs : sendSchema w = (.ok (), v)) (he : v.buffer.isEmpty = true) :
    Flushed w none (.ok (), v)
  /-- What waits becomes a batch, and its first `n` messages go out. -/
  | batch {v : RowWriter} {result : Except Error Unit} {sink : Sink} {n flushes : Nat}
    (hs : sendSchema w = (.ok (), v)) (he : v.buffer.isEmpty = false)
    (hn : n ≤ (v.buffer.messages v.schema).length)
    (hp : sink.pieces =
      v.frames.sink.pieces ++ ((v.buffer.messages v.schema).take n).map frameBytes)
    (hf : ∀ m ∈ (v.buffer.messages v.schema).take n, frameOf m = .ok (frameBytes m))
    (hr : result = .ok () → v.buffer.encode v.schema = .ok (v.buffer.messages v.schema) ∧
      n = (v.buffer.messages v.schema).length) :
    Flushed w (some ⟨v.buffer.intoRows, n⟩) (result, { v with
      frames := { v.frames with sink }, buffer := .empty v.schema, flushes })

theorem flush_flushed (w : RowWriter) : Flushed w w.attempt (flush w) := by
  rcases hs : sendSchema w with ⟨e | ⟨⟩, v⟩
  · have hflush : flush w = (.error e, v) := by rw [flush, Action.bind_error hs]
    have hattempt : w.attempt = none := by rw [attempt, hs]
    rw [hflush, hattempt]
    exact .unannounced hs
  have hflush := show flush w = _ by
    rw [flush, Action.bind_ok hs, Action.bind_ok (Action.get_apply v)]
  cases he : v.buffer.isEmpty with
  | true =>
    rw [he, if_pos rfl, Action.pure_apply] at hflush
    have hattempt : w.attempt = none := by simp [attempt, hs, he]
    rw [hflush, hattempt]
    exact .idle hs he
  | false =>
    have hattempt : w.attempt = some ⟨v.buffer.intoRows, (flush w).2.taken - v.taken⟩ := by
      simp [attempt, hs, he]
    rw [he, if_neg Bool.false_ne_true, Action.bind_ok (Action.modify_apply _ v)] at hflush
    rw [hattempt]
    cases hencode : v.buffer.encode v.schema with
    | error fault =>
      have hnone : v.buffer.messages v.schema = [] := by rw [RowGroup.messages, hencode]; rfl
      rw [hencode] at hflush
      have hflush : flush w = (.error (.data fault), { v with buffer := .empty v.schema }) := hflush
      rw [hflush, show ({ v with buffer := .empty v.schema } : RowWriter).taken = v.taken from rfl,
        Nat.sub_self]
      have hsink : v.frames.sink.pieces = v.frames.sink.pieces ++
          ((v.buffer.messages v.schema).take 0).map frameBytes := by simp
      refine .batch hs he (Nat.zero_le _) hsink (by simp) ?_
      intro hok
      cases hok
    | ok ms =>
      have hms : v.buffer.messages v.schema = ms := by rw [RowGroup.messages, hencode]; rfl
      obtain ⟨n, hn, result, sink, heach, hpieces, hframed, hok⟩ :=
        each_writeMessage_sent ms { v with buffer := .empty v.schema }
      rw [hencode] at hflush
      have hsent (u : RowWriter) (hu : u.frames.sink = sink) : u.taken - v.taken = n := by
        have hlength : sink.pieces.length = v.frames.sink.pieces.length + n := by
          rw [hpieces, List.length_append, List.length_map, List.length_take, Nat.min_eq_left hn]
        rw [taken, taken, hu, hlength, Nat.add_sub_cancel_left]
      rw [← hms] at hn hpieces hframed hok hencode
      cases result with
      | error e =>
        have hflush := (hflush.trans (Action.bind_ok (Action.ofExcept_ok ms _))).trans
          (Action.bind_error heach)
        rw [hflush, hsent _ rfl]
        refine .batch hs he hn hpieces hframed ?_
        intro hfalse
        cases hfalse
      | ok =>
        have hflush := (hflush.trans (Action.bind_ok (Action.ofExcept_ok ms _))).trans
          (Action.bind_ok heach)
        rw [Action.modify_apply] at hflush
        rw [hflush, hsent _ rfl]
        exact .batch hs he hn hpieces hframed fun _ => ⟨hencode, hok rfl⟩

/-! ### Flushes keep the books -/

/-- The books do not change when the schema is announced, or is refused. -/
theorem sendSchema_records (h : Records schema start w b) {result : Except Error Unit}
    (hs : sendSchema w = (result, w')) :
    Records schema start w' b ∧ (result = .ok () → w'.schemaSent = true) := by
  rw [sendSchema, Action.bind_ok (Action.get_apply w)] at hs
  cases hsent : w.schemaSent with
  | true =>
    rw [hsent] at hs
    cases hs
    exact ⟨h, fun _ => hsent⟩
  | false =>
    obtain ⟨hnone, hstart⟩ := h.unsent hsent
    rw [hsent, if_neg Bool.false_ne_true] at hs
    obtain ⟨hframe, hwrite⟩ | ⟨e, offered, hwrite⟩ :=
      FrameWriter.writeMessage_cases w.schema.toJson.bytes w.frames
    · have hframes : onFrames (FrameWriter.writeJson w.schema.toJson) w = _ := onFrames_eq hwrite
      rw [h.schema_eq] at hframe
      rw [Action.bind_ok hframes] at hs
      cases hs
      refine ⟨⟨h.schema_eq, h.buffer_eq, h.valid, h.unfinished, h.made,
        fun hfalse => Bool.noConfusion hfalse, fun _ => hframe, fun _ => ?_⟩, fun _ => rfl⟩
      rw [hnone, h.schema_eq]
      simp [sentMessages, hstart]
    · have hframes : onFrames (FrameWriter.writeJson w.schema.toJson) w = _ :=
        Action.zoom_apply hwrite
      rw [Action.bind_error hframes] at hs
      cases hs
      refine ⟨⟨h.schema_eq, h.buffer_eq, h.valid, h.unfinished, h.made, h.unsent, h.announced,
        h.sent⟩, ?_⟩
      intro hok
      cases hok

/-- What waits has become a batch, of which the first `n` messages are out. -/
theorem Records.batch (h : Records schema start w b) (hsent : w.schemaSent = true)
    (hpending : b.pending ≠ []) {sink : Sink} {n flushes : Nat}
    (hn : n ≤ (w.buffer.messages w.schema).length)
    (hp : sink.pieces =
      w.frames.sink.pieces ++ ((w.buffer.messages w.schema).take n).map frameBytes)
    (hf : ∀ m ∈ (w.buffer.messages w.schema).take n, frameOf m = .ok (frameBytes m)) :
    Records schema start { w with
      frames := { w.frames with sink }, buffer := .empty w.schema, flushes }
      ⟨b.attempts ++ [⟨b.pending, n⟩], []⟩ := by
  have hmessages : w.buffer.messages w.schema = Attempt.messages schema ⟨b.pending, n⟩ := by
    rw [h.buffer_eq, h.schema_eq, Attempt.messages]
  rw [hmessages] at hn hp hf
  refine ⟨h.schema_eq, ?_, by simp, h.unfinished, ?_, ?_, h.announced, ?_⟩
  · rw [RowGroup.collected_nil]
    exact congrArg RowGroup.empty h.schema_eq
  · exact List.forall_mem_append.mpr
      ⟨h.made, List.forall_mem_singleton.mpr ⟨hpending, h.valid, hn, hf⟩⟩
  · intro hfalse
    exact absurd (hsent.symm.trans hfalse) Bool.noConfusion
  · intro _
    have hbytes := h.sent hsent
    rw [Sink.bytes] at hbytes ⊢
    rw [hp, List.flatten_append, hbytes, sentMessages_append, framed_append, List.append_assoc]
    simp [framed, List.flatMap, Attempt.outgoing]

/-- A flush keeps the books: what has waited still waits, or is in the batch. When it succeeds,
nothing waits and all of the batch is out. -/
theorem flush_records (h : Records schema start w b) :
    ∃ pending, Records schema start (flush w).2 ⟨b.attempts ++ w.attempt.toList, pending⟩ ∧
      b.pending = w.attempt.toList.flatMap (·.rows) ++ pending ∧
      ((flush w).1 = .ok () → (flush w).2.schemaSent = true ∧ pending = [] ∧
        ∀ a ∈ w.attempt, a.Whole schema) := by
  have hcase := flush_flushed w
  generalize hattempt : w.attempt = attempted at hcase
  generalize hresult : flush w = after at hcase
  cases hcase with
  | unannounced hs =>
    obtain ⟨hv, -⟩ := sendSchema_records h hs
    refine ⟨b.pending, by simpa using hv, by simp, ?_⟩
    intro hok
    cases hok
  | @idle v hs he =>
    obtain ⟨hv, hsent⟩ := sendSchema_records h hs
    have hpending : b.pending = [] := by
      rw [hv.buffer_eq, RowGroup.isEmpty, RowGroup.rowCount_collected] at he
      simpa using he
    exact ⟨b.pending, by simpa using hv, by simp, fun _ => ⟨hsent rfl, hpending, by simp⟩⟩
  | @batch v result sink n flushes hs he hn hp hf hr =>
    obtain ⟨hv, hsent⟩ := sendSchema_records h hs
    have hpending : b.pending ≠ [] := by
      rw [hv.buffer_eq, RowGroup.isEmpty, RowGroup.rowCount_collected] at he
      simpa using he
    have hrows : v.buffer.intoRows = b.pending := by
      rw [hv.buffer_eq, RowGroup.intoRows_collected hv.valid]
    rw [hrows]
    refine ⟨[], hv.batch (hsent rfl) hpending hn hp hf, by simp, ?_⟩
    intro hok
    obtain ⟨hencode, hall⟩ := hr hok
    rw [hv.buffer_eq, hv.schema_eq] at hencode hall
    refine ⟨hsent rfl, rfl, ?_⟩
    rintro a ⟨⟩
    exact ⟨hencode, hall⟩

/-! ### Steps and runs keep the books -/

/-- What a part of a run does to the books: it makes some batches, and of the rows that it is
given it appends some. Those that it accepts are among them; if all goes well, all are. -/
structure Accounts (schema : Schema) (b b' : Books) (made : List Attempt)
    (given accepted appended : List Row) (well : Prop) : Prop where
  attempts_eq : b'.attempts = b.attempts ++ made
  rows_eq : b.pending ++ appended = made.flatMap (·.rows) ++ b'.pending
  accepted_sublist : accepted.Sublist appended
  appended_sublist : appended.Sublist given
  whole : well → appended = given ∧ ∀ a ∈ made, a.Whole schema

namespace Accounts

variable {b' b'' : Books} {made made' : List Attempt} {given given' accepted accepted' appended
  appended' : List Row} {well well' : Prop}

theorem refl (schema : Schema) (b : Books) (well : Prop) :
    Accounts schema b b [] [] [] [] well where
  attempts_eq := (List.append_nil _).symm
  rows_eq := by simp
  accepted_sublist := .refl _
  appended_sublist := .refl _
  whole := fun _ => ⟨rfl, by simp⟩

theorem trans (h : Accounts schema b b' made given accepted appended well)
    (h' : Accounts schema b' b'' made' given' accepted' appended' well') :
    Accounts schema b b'' (made ++ made') (given ++ given') (accepted ++ accepted')
      (appended ++ appended') (well ∧ well') where
  attempts_eq := by rw [h'.attempts_eq, h.attempts_eq, List.append_assoc]
  rows_eq := by
    rw [← List.append_assoc, h.rows_eq, List.append_assoc, h'.rows_eq, List.flatMap_append,
      List.append_assoc]
  accepted_sublist := h.accepted_sublist.append h'.accepted_sublist
  appended_sublist := h.appended_sublist.append h'.appended_sublist
  whole := by
    rintro ⟨hwell, hwell'⟩
    obtain ⟨hall, hwhole⟩ := h.whole hwell
    obtain ⟨hall', hwhole'⟩ := h'.whole hwell'
    exact ⟨by rw [hall, hall'], List.forall_mem_append.mpr ⟨hwhole, hwhole'⟩⟩

/-- Rows that were not even looked at. -/
theorem cut (h : Accounts schema b b' made given accepted appended well) (more : List Row)
    (hnot : ¬ well') : Accounts schema b b' made (given ++ more) accepted appended well' where
  attempts_eq := h.attempts_eq
  rows_eq := h.rows_eq
  accepted_sublist := h.accepted_sublist
  appended_sublist := h.appended_sublist.trans (List.sublist_append_left given more)
  whole := fun hwell => absurd hwell hnot

theorem imp (h : Accounts schema b b' made given accepted appended well) (himp : well' → well) :
    Accounts schema b b' made given accepted appended well' :=
  { h with whole := fun hwell => h.whole (himp hwell) }

end Accounts

/-- The batch that a step takes out of the buffer. -/
def stepAttempt (w : RowWriter) : Option Row → Option Attempt
  | none => w.attempt
  | some row =>
    match w.buffer.push w.schema row with
    | .error _ => none
    | .ok buffer => if w.threshold ≤ buffer.rowCount then { w with buffer }.attempt else none

/-- The row of a step that succeeds. -/
def stepAccepted (w : RowWriter) (s : Option Row) : Option Row :=
  match (runStep s w).1 with
  | .ok () => s
  | .error _ => none

theorem stepAccepted_sublist (w : RowWriter) (s : Option Row) :
    (w.stepAccepted s).toList.Sublist s.toList := by
  rw [stepAccepted]
  split
  · exact .refl _
  · exact List.nil_sublist _

theorem push_cases (group : RowGroup) (schema : Schema) (row : Row) :
    (row.validate schema = .ok () ∧ group.push schema row = .ok (group.append row)) ∨
      ∃ fault, group.push schema row = .error fault := by
  cases hvalid : row.validate schema with
  | ok => exact .inl ⟨rfl, RowGroup.push_eq_ok hvalid⟩
  | error fault =>
    right
    exact ⟨fault, by rw [RowGroup.push, hvalid]; rfl⟩

theorem writeRow_pushed {row : Row}
    (hpush : w.buffer.push w.schema row = .ok (w.buffer.append row)) :
    writeRow row w = (if w.threshold ≤ (w.buffer.append row).rowCount then flush else pure ())
      { w with buffer := w.buffer.append row } := by
  rw [writeRow, Action.bind_ok (Action.get_apply w), hpush]
  rfl

/-- A row that is refused changes nothing. -/
theorem writeRow_refused {row : Row} {fault : DataError}
    (hpush : w.buffer.push w.schema row = .error fault) :
    writeRow row w = (.error (.data fault), w) := by
  rw [writeRow, Action.bind_ok (Action.get_apply w), hpush]
  rfl

/-- One more row waits. -/
theorem Records.push (h : Records schema start w b) {row : Row}
    (hvalid : row.validate schema = .ok ()) :
    Records schema start { w with buffer := w.buffer.append row }
      { b with pending := b.pending ++ [row] } where
  schema_eq := h.schema_eq
  buffer_eq := by rw [RowGroup.collected_concat, ← h.buffer_eq]
  valid := List.forall_mem_append.mpr ⟨h.valid, List.forall_mem_singleton.mpr hvalid⟩
  unfinished := h.unfinished
  made := h.made
  unsent := h.unsent
  announced := h.announced
  sent := h.sent

/-- A step keeps the books. A row that is refused is not appended; a row whose batch could not be
written is, and its call has failed all the same. -/
theorem step_records (h : Records schema start w b) (s : Option Row) :
    ∃ b' appended, Records schema start (runStep s w).2 b' ∧
      Accounts schema b b' (w.stepAttempt s).toList s.toList (w.stepAccepted s).toList appended
        ((runStep s w).1 = .ok ()) := by
  cases s with
  | none =>
    obtain ⟨pending, hrecords, hrows, hok⟩ := flush_records h
    refine ⟨_, [], hrecords, rfl, ?_, stepAccepted_sublist w none, .refl _, ?_⟩
    · rw [List.append_nil]
      exact hrows
    · intro hwell
      exact ⟨rfl, by simpa [stepAttempt] using (hok hwell).2.2⟩
  | some row =>
    obtain ⟨hvalid, hpush⟩ | ⟨fault, hpush⟩ := push_cases w.buffer w.schema row
    · rw [h.schema_eq] at hvalid
      have hv := h.push hvalid
      have hstep : runStep (some row) w = _ := writeRow_pushed hpush
      have hattempt : w.stepAttempt (some row) =
          if w.threshold ≤ (w.buffer.append row).rowCount then
            { w with buffer := w.buffer.append row }.attempt else none := by
        rw [stepAttempt, hpush]
      have hsub := stepAccepted_sublist w (some row)
      by_cases hfull : w.threshold ≤ (w.buffer.append row).rowCount
      · rw [if_pos hfull] at hstep hattempt
        obtain ⟨pending, hrecords, hrows, hok⟩ := flush_records hv
        rw [hstep, hattempt]
        refine ⟨_, [row], hrecords, rfl, hrows, hsub, .refl _, fun hwell => ⟨rfl, ?_⟩⟩
        simpa using (hok hwell).2.2
      · rw [if_neg hfull] at hstep hattempt
        rw [hstep, hattempt]
        exact ⟨_, [row], hv, by simp, by simp, hsub, .refl _, fun _ => ⟨rfl, by simp⟩⟩
    · have hstep : runStep (some row) w = _ := writeRow_refused hpush
      have hattempt : w.stepAttempt (some row) = none := by rw [stepAttempt, hpush]
      have haccepted : w.stepAccepted (some row) = none := by rw [stepAccepted, hstep]
      rw [hstep, hattempt, haccepted]
      refine ⟨b, [], h, by simp, by simp, .refl _, List.nil_sublist _, ?_⟩
      intro hwell
      cases hwell

/-- The steps that are tried of some, each with the writer that it finds: the first one that fails
is the last. -/
def tried : List (Option Row) → RowWriter → List (RowWriter × Option Row)
  | [], _ => []
  | s :: steps, w =>
    (w, s) :: match runStep s w with
      | (.ok (), w') => tried steps w'
      | (.error _, _) => []

/-- The batches that some steps take out of the buffer. -/
def attemptsOf (steps : List (RowWriter × Option Row)) : List Attempt :=
  steps.flatMap fun (w, s) => (w.stepAttempt s).toList

/-- The rows of some steps whose own call succeeds. -/
def acceptedOf (steps : List (RowWriter × Option Row)) : List Row :=
  steps.flatMap fun (w, s) => (w.stepAccepted s).toList

@[simp] theorem attemptsOf_nil : attemptsOf [] = [] := rfl

@[simp] theorem attemptsOf_cons (w : RowWriter) (s : Option Row)
    (steps : List (RowWriter × Option Row)) :
    attemptsOf ((w, s) :: steps) = (w.stepAttempt s).toList ++ attemptsOf steps := rfl

@[simp] theorem attemptsOf_append (front back : List (RowWriter × Option Row)) :
    attemptsOf (front ++ back) = attemptsOf front ++ attemptsOf back := List.flatMap_append

@[simp] theorem acceptedOf_nil : acceptedOf [] = [] := rfl

@[simp] theorem acceptedOf_cons (w : RowWriter) (s : Option Row)
    (steps : List (RowWriter × Option Row)) :
    acceptedOf ((w, s) :: steps) = (w.stepAccepted s).toList ++ acceptedOf steps := rfl

@[simp] theorem acceptedOf_append (front back : List (RowWriter × Option Row)) :
    acceptedOf (front ++ back) = acceptedOf front ++ acceptedOf back := List.flatMap_append

/-- Steps keep the books. -/
theorem tried_records (h : Records schema start w b) (steps : List (Option Row)) :
    ∃ b' appended, Records schema start (Action.each runStep steps w).2 b' ∧
      Accounts schema b b' (attemptsOf (tried steps w)) steps.reduceOption
        (acceptedOf (tried steps w)) appended ((Action.each runStep steps w).1 = .ok ()) := by
  induction steps generalizing w b with
  | nil => exact ⟨b, [], h, .refl schema b _⟩
  | cons s steps ih =>
    obtain ⟨v, appended, hv, hstep⟩ := step_records h s
    have hgiven : (s :: steps).reduceOption = s.toList ++ steps.reduceOption := by
      cases s <;> simp
    rw [hgiven, Action.each_cons]
    rcases hrun : runStep s w with ⟨e | ⟨⟩, w'⟩
    · rw [hrun] at hv hstep
      rw [Action.bind_error hrun, tried, hrun]
      refine ⟨v, appended, hv, ?_⟩
      have hfails : ¬ (Except.error e : Except Error Unit) = .ok () := by simp
      simpa using hstep.cut steps.reduceOption hfails
    · rw [hrun] at hv hstep
      obtain ⟨u, appended', hu, hsteps⟩ := ih hv
      rw [Action.bind_ok hrun, tried, hrun]
      refine ⟨u, appended ++ appended', hu, ?_⟩
      simpa using (hstep.trans hsteps).imp fun hwell => ⟨rfl, hwell⟩

/-- The writer after some calls, where a call that fails does not keep the next one from being
made. -/
def goOn (calls : List Call) (w : RowWriter) : RowWriter := calls.foldl (fun w c => (c.run w).2) w

/-- The steps of some calls, each with the writer that it finds. -/
def trace : List Call → RowWriter → List (RowWriter × Option Row)
  | [], _ => []
  | c :: calls, w => tried c.steps w ++ trace calls (c.run w).2

/-- Runs keep the books, whether their calls succeed or fail. -/
theorem run_records (h : Records schema start w b) (calls : List Call) :
    ∃ b' appended, Records schema start (goOn calls w) b' ∧
      Accounts schema b b' (attemptsOf (trace calls w)) (calls.flatMap Call.rows)
        (acceptedOf (trace calls w)) appended False := by
  induction calls generalizing w b with
  | nil => exact ⟨b, [], h, .refl schema b _⟩
  | cons c calls ih =>
    obtain ⟨v, appended, hv, hcall⟩ := tried_records h c.steps
    rw [each_steps] at hv
    obtain ⟨u, appended', hu, hcalls⟩ := ih hv
    refine ⟨u, appended ++ appended', hu, ?_⟩
    have hboth := (hcall.trans hcalls).imp fun hfalse : False => hfalse.elim
    rw [Call.reduceOption_steps] at hboth
    simpa [trace] using hboth

/-! ### Closing -/

/-- A writer that could be closed has ended its stream, and nothing waits any more. -/
theorem close_records (h : Records schema start w b) (hclose : close w = (.ok (), w')) :
    b.pending = w.attempt.toList.flatMap (·.rows) ∧ (∀ a ∈ w.attempt, a.Whole schema) ∧
      ∃ stream, w'.frames.sink.bytes = start ++ stream ∧
        Ended schema (b.attempts ++ w.attempt.toList) stream := by
  rw [close, Action.bind_ok (Action.get_apply w), h.unfinished, if_neg Bool.false_ne_true] at hclose
  obtain ⟨⟨⟩, v, hflush, hend⟩ := Action.bind_eq_ok.mp hclose
  obtain ⟨pending, hv, hrows, hok⟩ := flush_records h
  rw [hflush] at hv hok
  obtain ⟨hsent, rfl, hwhole⟩ := hok rfl
  rcases hframes : FrameWriter.close v.frames with ⟨result, frames⟩
  have hzoom : onFrames FrameWriter.close v = (result, { v with frames }) :=
    Action.zoom_apply hframes
  rw [hzoom] at hend
  cases hend
  obtain ⟨-, hbytes⟩ := FrameWriter.close_eq_ok hv.unfinished hframes
  refine ⟨by simpa using hrows, hwhole, _, ?_, hv.announced hsent, hv.made, rfl⟩
  rw [← List.append_assoc, ← hv.sent hsent]
  exact hbytes

/-! ### What writing leaves as it is -/

/-- The threshold, and whether the stream is finished. -/
structure Alike (w w' : RowWriter) : Prop where
  threshold : w'.threshold = w.threshold
  frames : w.frames.FinishedAlike w'.frames

instance : IsPreorder RowWriter Alike where
  refl := fun _ => ⟨rfl, rfl⟩
  trans := fun _ _ _ h h' => ⟨h'.threshold.trans h.threshold, trans_of _ h.frames h'.frames⟩

theorem always_writeMessage (m : Bytes) :
    Action.Always Alike (onFrames (FrameWriter.writeMessage m)) :=
  Action.always_zoom (FrameWriter.always_writeMessage m) fun _ _ h => ⟨rfl, h⟩

theorem always_sendSchema : Action.Always Alike sendSchema := by
  refine .bind Action.always_get fun w => ?_
  split
  · exact Action.always_pure ()
  · exact .bind (always_writeMessage _) fun _ => Action.always_modify fun _ => ⟨rfl, rfl⟩

theorem always_flush : Action.Always Alike flush := by
  refine .bind always_sendSchema fun _ => .bind Action.always_get fun w => ?_
  split
  · exact Action.always_pure ()
  · refine .bind (Action.always_modify fun _ => ⟨rfl, rfl⟩) fun _ =>
      .bind (Action.always_ofExcept _) fun ms => ?_
    exact .bind (Action.always_each always_writeMessage ms) fun _ =>
      Action.always_modify fun _ => ⟨rfl, rfl⟩

end RowWriter

end StagedQuery

import StagedQuery.Proofs.Codec.Data
import StagedQuery.Proofs.RowGroup
import StagedQuery.Proofs.Stream.Payload
import StagedQuery.Proofs.Wire.Frame
import StagedQuery.Stream.Reader
import StagedQuery.Stream.Writer

/-!
# Streams are read back

A reader that faces the frames of a schema, of some batches and the marker gets the schema
(`RowReader.readSchema_announced`), each batch (`RowReader.readGroup_batch`) and then the end.
`RowReader.drain_groups` puts the batches together. Behind the marker nothing changes any more:
whatever is asked of the reader, it stays as it is.
-/

namespace StagedQuery

/-! ### Batches as messages -/

theorem encodeColumns_append {left right : List (List Value × Field)} {ms : List Bytes} :
    encodeColumns (left ++ right) = .ok ms ↔ ∃ front back, encodeColumns left = .ok front ∧
      encodeColumns right = .ok back ∧ ms = front ++ back := by
  induction left generalizing ms with
  | nil => simp [encodeColumns, eq_comm]
  | cons column left ih =>
    obtain ⟨values, field⟩ := column
    simp only [List.cons_append, encodeColumns, Result.bind_eq_ok, ih, Result.pure_eq,
      Except.ok.injEq]
    constructor
    · rintro ⟨parts, hp, _, ⟨front, back, hf, hb, rfl⟩, rfl⟩
      exact ⟨_, back, ⟨parts, hp, front, hf, rfl⟩, hb, rfl⟩
    · rintro ⟨_, back, ⟨parts, hp, front, hf, rfl⟩, hb, rfl⟩
      exact ⟨parts, hp, _, ⟨front, back, hf, hb, rfl⟩, rfl⟩

theorem encodeColumns_isOk {n : Nat} {fields : List Field} {columns : List (List Value)}
    (hc : List.Forall₂ (Field.Admits n) fields columns) (hn : n < 0x80000000)
    (ht : ∀ column ∈ columns, ∀ v ∈ column, Column.Countable v) :
    ∃ ms, encodeColumns (columns.zip fields) = .ok ms := by
  induction hc with
  | nil => exact ⟨[], rfl⟩
  | @cons field column _ _ h _ ih =>
    obtain ⟨rest, hrest⟩ := ih fun c hmem => ht c (List.mem_cons_of_mem _ hmem)
    obtain ⟨bitmap, data, hcol⟩ := Column.encode_isOk (t := field.dataType)
      (fun v hv => (Field.check_eq_ok.mp (h.2 v hv)).2) (ht column List.mem_cons_self)
      (by rw [h.1]; exact hn)
    exact ⟨bitmap :: data :: rest, by simp [encodeColumns, hcol, hrest]⟩

theorem countable_of_encodeColumns {n : Nat} {fields : List Field} {columns : List (List Value)}
    {ms : List Bytes} (hc : List.Forall₂ (Field.Admits n) fields columns)
    (h : encodeColumns (columns.zip fields) = .ok ms) :
    ∀ column ∈ columns, ∀ v ∈ column, Column.Countable v := by
  induction hc generalizing ms with
  | nil => exact fun column hmem => absurd hmem List.not_mem_nil
  | cons _ _ ih =>
    rw [List.zip_cons_cons, encodeColumns] at h
    obtain ⟨⟨bitmap, data⟩, hencode, h⟩ := Result.bind_eq_ok.mp h
    obtain ⟨rest, hrest, -⟩ := Result.bind_eq_ok.mp h
    exact List.forall_mem_cons.mpr ⟨Column.countable_of_encode hencode, ih hrest⟩

/-- A group that could be written is not too long, and neither are its texts. -/
theorem RowGroup.countable_of_encode {schema : Schema} {group : RowGroup} {ms : List Bytes}
    (hg : group.Fits schema) (h : group.encode schema = .ok ms) :
    group.rowCount < 0x80000000 ∧
      ∀ column ∈ group.columns ++ group.keyColumns, ∀ v ∈ column, Column.Countable v := by
  obtain ⟨count, hcount, h⟩ := Result.bind_eq_ok.mp h
  obtain ⟨columns, hcolumns, -⟩ := Result.bind_eq_ok.mp h
  obtain ⟨front, back, hfront, hback, -⟩ := encodeColumns_append.mp hcolumns
  exact ⟨Column.lt_of_encodeCount hcount, List.forall_mem_append.mpr
    ⟨countable_of_encodeColumns hg.columns hfront, countable_of_encodeColumns hg.keyColumns hback⟩⟩

/-- A group that fits its schema can be written, if it is not too long and none of its texts
is. -/
theorem RowGroup.encode_isOk {schema : Schema} {group : RowGroup} (h : group.Fits schema)
    (hn : group.rowCount < 0x80000000)
    (ht : ∀ column ∈ group.columns ++ group.keyColumns, ∀ v ∈ column, Column.Countable v) :
    ∃ ms, group.encode schema = .ok ms := by
  obtain ⟨front, hf⟩ := encodeColumns_isOk h.columns hn
    fun c hc => ht c (List.mem_append_left _ hc)
  obtain ⟨back, hb⟩ := encodeColumns_isOk h.keyColumns hn
    fun c hc => ht c (List.mem_append_right _ hc)
  have hboth := encodeColumns_append.mpr ⟨front, back, hf, hb, rfl⟩
  exact ⟨_, by simp only [encode, Column.encodeCount_of_lt hn, hboth]; rfl⟩

/-- The messages of a group, or none if it cannot be written. -/
def RowGroup.messages (schema : Schema) (group : RowGroup) : List Bytes :=
  (group.encode schema).toOption.getD []

theorem RowGroup.encode_messages {schema : Schema} {group : RowGroup} {ms : List Bytes}
    (h : group.encode schema = .ok ms) : group.encode schema = .ok (group.messages schema) := by
  rw [messages, h]
  rfl

namespace RowReader

/-- The reader with other bytes before it. -/
def facing (r : RowReader) (bytes : Bytes) : RowReader := { r with frames := r.frames.facing bytes }

variable {r : RowReader} {schema : Schema}

/-! ### Columns -/

theorem onFrames_eq {α : Type} {x : Action FrameReader α} {result : Except Error α}
    {frames : FrameReader} (h : x r.frames = (result, frames)) :
    onFrames x r = (result, { r with frames }) :=
  Action.zoom_apply h

theorem onFrames_facing {α : Type} {x : Action FrameReader α} {result : Except Error α}
    {bytes rest : Bytes} (h : x (r.frames.facing bytes) = (result, r.frames.facing rest)) :
    onFrames x (r.facing bytes) = (result, r.facing rest) :=
  onFrames_eq h

theorem readPart_message {m : Bytes} (hf : r.frames.finished = false)
    (hm : Passes r.frames.maxMessage m) (rest : Bytes) :
    readPart (r.facing (frameBytes m ++ rest)) = (.ok m, r.facing rest) :=
  Action.bind_ok (onFrames_facing (FrameReader.readMessage_message hf hm rest))

/-- Columns are read from the messages that were written for them. -/
theorem readColumns_encodeColumns {n : Nat} {fields : List Field} {columns : List (List Value)}
    {ms : List Bytes} (hc : List.Forall₂ (Field.Admits n) fields columns)
    (he : encodeColumns (columns.zip fields) = .ok ms) (hf : r.frames.finished = false)
    (hp : ∀ m ∈ ms, Passes r.frames.maxMessage m) (rest : Bytes) :
    readColumns n fields (r.facing (framed ms ++ rest)) = (.ok columns, r.facing rest) := by
  induction hc generalizing ms with
  | nil =>
    injection he with he
    subst he
    rfl
  | @cons field column _ _ h _ ih =>
    simp only [List.zip_cons_cons, encodeColumns, Result.bind_eq_ok] at he
    obtain ⟨⟨bitmap, data⟩, hcol, tail, htail, he⟩ := he
    injection he with he
    subst he
    have hdecode := Column.decode_encode field hcol
      fun v hv => (Field.check_eq_ok.mp (h.2 v hv)).1
    rw [h.1] at hdecode
    have hbitmap := hp bitmap List.mem_cons_self
    have hdata := hp data (List.mem_cons_of_mem _ List.mem_cons_self)
    have htail := ih htail fun m hm => hp m (List.mem_cons_of_mem _ (List.mem_cons_of_mem _ hm))
    rw [readColumns, framed_cons, framed_cons, List.append_assoc, List.append_assoc,
      Action.bind_ok (readPart_message hf hbitmap _),
      Action.bind_ok (readPart_message hf hdata _), hdecode]
    exact Action.bind_ok htail

/-! ### Batches -/

/-- A batch is read from the messages that were written for it. -/
theorem readGroup_batch {group : RowGroup} {ms : List Bytes} (hs : r.schema = some schema)
    (hg : group.Fits schema) (he : group.encode schema = .ok ms)
    (hrows : group.rowCount ≤ r.maxRows) (hf : r.frames.finished = false)
    (hp : ∀ m ∈ ms, Passes r.frames.maxMessage m) (rest : Bytes) :
    readGroup (r.facing (framed ms ++ rest)) = (.ok (some group), r.facing rest) := by
  simp only [RowGroup.encode, Result.bind_eq_ok] at he
  obtain ⟨count, hcount, columns, hcolumns, he⟩ := he
  injection he with he
  subst he
  obtain ⟨front, back, hfront, hback, rfl⟩ := encodeColumns_append.mp hcolumns
  have schemaKnown (bytes : Bytes) :
      readSchema (r.facing bytes) = (.ok schema, r.facing bytes) := by
    rw [readSchema, Action.bind_ok (Action.get_apply _), show (r.facing bytes).schema = _ from hs]
    rfl
  have hcountPasses := hp count List.mem_cons_self
  have hfrontPasses : ∀ m ∈ front, Passes r.frames.maxMessage m :=
    fun m hm => hp m (List.mem_cons_of_mem _ (List.mem_append_left _ hm))
  have hbackPasses : ∀ m ∈ back, Passes r.frames.maxMessage m :=
    fun m hm => hp m (List.mem_cons_of_mem _ (List.mem_append_right _ hm))
  have hmessage := onFrames_facing (FrameReader.readMessage_message hf hcountPasses
    (framed front ++ (framed back ++ rest)))
  rw [readGroup, Action.bind_ok (schemaKnown _), framed_cons, framed_append, List.append_assoc,
    List.append_assoc, Action.bind_ok hmessage]
  dsimp only
  rw [readBody, rowCount_encodeCount hcount]
  refine (Action.bind_ok rfl).trans ((Action.bind_ok rfl).trans ?_)
  rw [if_neg (by exact Nat.not_lt.mpr hrows)]
  refine (Action.bind_ok (readColumns_encodeColumns hg.columns hfront hf hfrontPasses _)).trans ?_
  refine (Action.bind_ok (readColumns_encodeColumns hg.keyColumns hback hf hbackPasses _)).trans ?_
  rw [hg.rectangular.ofColumns_eq]
  rfl

/-- A group that the reader gets as it was written. -/
structure Accepts (r : RowReader) (schema : Schema) (group : RowGroup) : Prop where
  fits : group.Fits schema
  encoded : group.encode schema = .ok (group.messages schema)
  rows_le : group.rowCount ≤ r.maxRows
  passes : ∀ m ∈ group.messages schema, Passes r.frames.maxMessage m

/-! ### Whole streams -/

/-- The reader behind the marker. -/
def past (r : RowReader) (rest : Bytes) : RowReader :=
  { r with frames := { r.frames.facing rest with finished := true } }

theorem readSchema_known (hs : r.schema = some schema) : readSchema r = (.ok schema, r) := by
  rw [readSchema, Action.bind_ok (Action.get_apply _), hs]
  rfl

theorem readJson_schema (frames : FrameReader) (hf : frames.finished = false)
    (hp : Passes frames.maxMessage schema.toJson.bytes) (rest : Bytes) :
    FrameReader.readJson Schema.decoder (frames.facing (frameBytes schema.toJson.bytes ++ rest)) =
      (.ok (some schema), frames.facing rest) := by
  rw [FrameReader.readJson, Action.bind_ok (FrameReader.readMessage_message hf hp rest)]
  simp only [Schema.decodeBytes_toJson, Action.pure_apply]

/-- The schema is read from its announcement. -/
theorem readSchema_announced (hs : r.schema = none) (hc : checkSchema r.expected schema = .ok ())
    (hf : r.frames.finished = false) (hp : Passes r.frames.maxMessage schema.toJson.bytes)
    (rest : Bytes) :
    readSchema (r.facing (frameBytes schema.toJson.bytes ++ rest)) =
      (.ok schema, { r.facing rest with schema := some schema }) := by
  have hunknown (bytes : Bytes) : (r.facing bytes).schema = none := hs
  have hexpected (bytes : Bytes) : (r.facing bytes).expected = r.expected := rfl
  rw [readSchema, Action.bind_ok (Action.get_apply _), hunknown, hexpected]
  dsimp only
  rw [Action.bind_ok (onFrames_facing (readJson_schema r.frames hf hp rest))]
  dsimp only
  rw [hc, Action.bind_ok (Action.ofExcept_ok _ _), Action.bind_ok (Action.modify_apply _ _),
    Action.pure_apply]

theorem readGroup_marker (hs : r.schema = some schema) (hf : r.frames.finished = false)
    (rest : Bytes) : readGroup (r.facing (endMarker ++ rest)) = (.ok none, r.past rest) := by
  have hs : (r.facing (endMarker ++ rest)).schema = some schema := hs
  have hend : onFrames FrameReader.readMessage (r.facing (endMarker ++ rest)) =
      (.ok none, r.past rest) :=
    Action.zoom_apply (FrameReader.readMessage_marker hf rest)
  rw [readGroup, Action.bind_ok (readSchema_known hs)]
  exact Action.bind_ok hend

/-- Once the schema is known, nothing but the schema was read. -/
theorem readGroup_of_readSchema {r' : RowReader} (h : readSchema r = (.ok schema, r'))
    (hs : r'.schema = some schema) : readGroup r = readGroup r' := by
  rw [readGroup, Action.bind_ok h, Action.bind_ok (readSchema_known hs)]

theorem drain_none {r' : RowReader} (h : readGroup r = (.ok none, r')) :
    drain r = ({ batches := [], fault := none }, r') := by
  rw [drain]
  split <;> simp_all

theorem drain_some {r' : RowReader} {g : RowGroup} (h : readGroup r = (.ok (some g), r')) :
    drain r = ({ (drain r').1 with batches := g :: (drain r').1.batches }, (drain r').2) := by
  rw [drain]
  split <;> simp_all

theorem drain_error {r' : RowReader} {e : Error} (h : readGroup r = (.error e, r')) :
    drain r = ({ batches := [], fault := some e }, r') := by
  rw [drain]
  split <;> simp_all

theorem drain_congr {r' : RowReader} (h : readGroup r = readGroup r') : drain r = drain r' := by
  rcases hr : readGroup r' with ⟨_ | _ | g, s⟩
  · rw [drain_error hr, drain_error (h.trans hr)]
  · rw [drain_none hr, drain_none (h.trans hr)]
  · rw [drain_some hr, drain_some (h.trans hr)]

/-- All batches up to the marker. -/
theorem drain_groups {groups : List RowGroup} (hs : r.schema = some schema)
    (hg : ∀ g ∈ groups, r.Accepts schema g) (hf : r.frames.finished = false) (rest : Bytes) :
    drain (r.facing (framed (groups.flatMap (·.messages schema)) ++ (endMarker ++ rest))) =
      ({ batches := groups, fault := none }, r.past rest) := by
  induction groups with
  | nil => exact drain_none (readGroup_marker hs hf rest)
  | cons g groups ih =>
    have h := hg g List.mem_cons_self
    have ih := ih fun g' hg' => hg g' (List.mem_cons_of_mem _ hg')
    rw [List.flatMap_cons, framed_append, List.append_assoc,
      drain_some (readGroup_batch hs h.fits h.encoded h.rows_le hf h.passes _), ih]

/-! ### Behind the marker -/

theorem readGroup_finished (hs : r.schema = some schema) (hf : r.frames.finished = true) :
    readGroup r = (.ok none, r) := by
  rw [readGroup, Action.bind_ok (readSchema_known hs)]
  exact Action.bind_ok (onFrames_eq (FrameReader.readMessage_finished hf))

theorem readRow_none {r' : RowReader} (hc : r.current = []) (h : readGroup r = (.ok none, r')) :
    readRow r = (.ok none, r') := by
  rw [readRow.eq_def, hc]
  dsimp only
  split <;> simp_all

end RowReader

end StagedQuery

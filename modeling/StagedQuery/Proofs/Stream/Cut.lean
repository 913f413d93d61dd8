import StagedQuery.Proofs.Stream.Attempts
import StagedQuery.Proofs.Wire.Cut

/-!
# Batches of which a part may be missing

When a batch has been cut, because the transport refused one of its messages or because the
connection broke, no reader takes what is left of it for a batch. What can follow the messages
that are there (`Follows`) is nothing, the marker, or the row count of another batch; and a row
count is neither the bitmap of a column nor its values. So whatever limits a reader has, the
batches that it gets are whole (`RowReader.readGroup_attempt`), and a reader that gets to the end
of a stream has got every batch of which anything went out, as a whole
(`RowReader.drain_ended`).
-/

namespace StagedQuery

namespace Column

/-! ### Row counts are no columns -/

theorem takeValue_nil {t : DataType} {v : Value} {rest : Bytes} :
    takeValue t [] ≠ .ok (v, rest) := by
  intro h
  cases t <;> cases h

/-- From nothing, only absent values can be read. -/
theorem takeValues_nil {field : Field} {bits : List Bool} {column : List Value} {rest : Bytes}
    (h : takeValues field bits [] = .ok (column, rest)) : bits.count true = 0 := by
  induction bits generalizing column rest with
  | nil => rfl
  | cons bit bits ih =>
    cases bit with
    | true =>
      rw [takeValues] at h
      obtain ⟨⟨v, more⟩, hvalue, -⟩ := Result.bind_eq_ok.mp h
      exact absurd hvalue takeValue_nil
    | false =>
      rw [takeValues] at h
      split at h
      · obtain ⟨⟨vs, more⟩, hvalues, -⟩ := Result.bind_eq_ok.mp h
        rw [List.count_cons_of_ne (by simp)]
        exact ih hvalues
      · cases h

/-- The count of another batch is not a bitmap: it is not followed by bits. -/
theorem decode_count_as_bitmap {field : Field} {rows n : Nat} {count values : Bytes}
    {column : List Value} (hrows : 0 < rows) (hc : encodeCount n = .ok count) :
    decode field rows count values ≠ .ok column := by
  intro h
  obtain ⟨packed, bits, rest, -, -, hflags, hbits, -⟩ := decode_eq_ok h
  rw [takeCount_of_encodeCount hc] at hflags
  cases hflags
  have hsize : 0 < bitmapSize rows := by
    rw [bitmapSize]
    omega
  simp [take, Bytes.split?, hsize] at hbits

/-- The count of another batch is not the values of a column: it is not followed by values. -/
theorem decode_count_as_values {field : Field} {rows n : Nat} {bitmap count : Bytes}
    {column : List Value} (hn : 0 < n) (hc : encodeCount n = .ok count) :
    decode field rows bitmap count ≠ .ok column := by
  intro h
  obtain ⟨-, bits, -, declared, data, -, -, hdeclared, hvalues, hcount⟩ := decode_eq_ok h
  rw [takeCount_of_encodeCount hc] at hdeclared
  cases hdeclared
  rw [takeValues_nil hvalues] at hcount
  omega

end Column

/-! ### What follows a batch -/

/-- What may follow the messages of a batch: nothing, the marker, or the row count of another
batch. -/
inductive Follows : Bytes → Prop
  | nothing : Follows []
  | marker (rest : Bytes) : Follows (endMarker ++ rest)
  | batch {n : Nat} {count : Bytes} (hn : 0 < n) (hc : Column.encodeCount n = .ok count)
    (hf : frameOf count = .ok (frameBytes count)) (rest : Bytes) :
    Follows (frameBytes count ++ rest)

/-- The first message of a batch is its row count. -/
theorem Attempt.Made.outgoing_eq {schema : Schema} {a : Attempt} (h : a.Made schema)
    (hsent : 0 < a.sent) :
    ∃ count front back, Column.encodeCount a.rows.length = .ok count ∧
      encodeColumns ((RowGroup.collected schema a.rows).columns.zip schema.fields) = .ok front ∧
      encodeColumns ((RowGroup.collected schema a.rows).keyColumns.zip schema.keys) = .ok back ∧
      (RowGroup.collected schema a.rows).encode schema = .ok (a.messages schema) ∧
      a.messages schema = count :: (front ++ back) ∧
      a.outgoing schema =
        count :: (front.take (a.sent - 1) ++ back.take (a.sent - 1 - front.length)) := by
  have hencode : (RowGroup.collected schema a.rows).encode schema = .ok (a.messages schema) := by
    cases hms : (RowGroup.collected schema a.rows).encode schema with
    | ok ms => rw [Attempt.messages, RowGroup.messages, hms]; rfl
    | error fault =>
      have hle := h.sent_le
      rw [Attempt.messages, RowGroup.messages, hms] at hle
      exact absurd hle (Nat.not_le.mpr hsent)
  have hparts := hencode
  rw [RowGroup.encode, RowGroup.rowCount_collected] at hparts
  obtain ⟨count, hcount, hparts⟩ := Result.bind_eq_ok.mp hparts
  obtain ⟨columns, hcolumns, hparts⟩ := Result.bind_eq_ok.mp hparts
  obtain ⟨front, back, hfront, hback, rfl⟩ := encodeColumns_append.mp hcolumns
  have hmessages : a.messages schema = count :: (front ++ back) := (Except.ok.inj hparts).symm
  refine ⟨count, front, back, hcount, hfront, hback, hencode, hmessages, ?_⟩
  obtain ⟨k, hk⟩ := Nat.exists_eq_add_one.mpr hsent
  rw [Attempt.outgoing, hmessages, hk, List.take_succ_cons, List.take_append, Nat.add_sub_cancel]

/-- What follows a batch of a stream is what may follow one. -/
theorem Follows.attempts {schema : Schema} {attempts : List Attempt} {tail : Bytes}
    (h : ∀ a ∈ attempts, a.Made schema) (ht : Follows tail) :
    Follows (framed (attempts.flatMap (Attempt.outgoing schema)) ++ tail) := by
  induction attempts with
  | nil => exact ht
  | cons a attempts ih =>
    obtain ⟨ha, hrest⟩ := List.forall_mem_cons.mp h
    rcases Nat.eq_zero_or_pos a.sent with hzero | hsent
    · simpa [Attempt.outgoing, hzero] using ih hrest
    · obtain ⟨count, front, back, hcount, -, -, -, -, hout⟩ := ha.outgoing_eq hsent
      have hframed := ha.framed count (by rw [hout]; exact List.mem_cons_self)
      have hpos : 0 < a.rows.length := List.length_pos_iff.mpr ha.rows_ne
      rw [List.flatMap_cons, hout, List.cons_append, framed_cons, List.append_assoc]
      exact .batch hpos hcount hframed _

namespace RowReader

variable {r r' : RowReader} {schema : Schema} {rest tail : Bytes}

theorem onFrames_eq_ok {α : Type} {x : Action FrameReader α} {a : α}
    (h : onFrames x r = (.ok a, r')) :
    ∃ frames, x r.frames = (.ok a, frames) ∧ r' = { r with frames } := by
  rcases hx : x r.frames with ⟨result, frames⟩
  have hzoom : onFrames x r = (result, { r with frames }) := onFrames_eq hx
  rw [hzoom] at h
  cases h
  exact ⟨frames, rfl, rfl⟩

/-! ### Columns of a batch that may be cut -/

theorem readPart_first {m part : Bytes} (hm : frameOf m = .ok (frameBytes m))
    (hr : r.frames.Faces (frameBytes m ++ rest)) (h : readPart r = (.ok part, r')) :
    part = m ∧ ∃ rest', rest' <+: rest ∧ r' = r.facing rest' := by
  obtain ⟨message, s, hmessage, h⟩ := Action.bind_eq_ok.mp h
  obtain ⟨frames, hframes, rfl⟩ := onFrames_eq_ok hmessage
  obtain ⟨rfl, rest', hrest, rfl⟩ := FrameReader.readMessage_first hm hr hframes
  cases h
  exact ⟨rfl, rest', hrest, rfl⟩

/-- Behind a batch that was cut, the only message is a row count. -/
theorem readPart_follows {part : Bytes} (ht : Follows tail) (hr : r.frames.Faces tail)
    (h : readPart r = (.ok part, r')) : ∃ n, 0 < n ∧ Column.encodeCount n = .ok part := by
  cases ht with
  | nothing =>
    obtain ⟨message, s, hmessage, -⟩ := Action.bind_eq_ok.mp h
    obtain ⟨frames, hframes, -⟩ := onFrames_eq_ok hmessage
    exact absurd hframes (FrameReader.readMessage_nothing hr)
  | marker rest =>
    obtain ⟨message, s, hmessage, h⟩ := Action.bind_eq_ok.mp h
    obtain ⟨frames, hframes, -⟩ := onFrames_eq_ok hmessage
    obtain ⟨rfl, -⟩ := FrameReader.readMessage_end hr hframes
    cases h
  | @batch n count hn hc hf rest =>
    obtain ⟨rfl, -⟩ := readPart_first hf hr h
    exact ⟨n, hn, hc⟩

/-- Columns that are read were there as a whole, and are the columns that were written. -/
theorem readColumns_taken {n k : Nat} {fields : List Field} {columns found : List (List Value)}
    {ms : List Bytes} (hn : 0 < n) (hc : List.Forall₂ (Field.Admits n) fields columns)
    (he : encodeColumns (columns.zip fields) = .ok ms)
    (hm : ∀ m ∈ ms.take k, frameOf m = .ok (frameBytes m)) (ht : k < ms.length → Follows tail)
    (hr : r.frames.Faces (framed (ms.take k) ++ tail))
    (h : readColumns n fields r = (.ok found, r')) :
    ms.length ≤ k ∧ found = columns ∧ ∃ rest', rest' <+: tail ∧ r' = r.facing rest' := by
  induction hc generalizing ms k r r' found with
  | nil =>
    cases he
    obtain ⟨hfound, hreader⟩ := Prod.mk.inj h
    exact ⟨Nat.zero_le k, (Except.ok.inj hfound).symm, r.frames.rest,
      by simpa using hr.rest_prefix, hreader.symm⟩
  | @cons field column fields columns hcolumn _ ih =>
    rw [List.zip_cons_cons, encodeColumns] at he
    obtain ⟨⟨bitmap, data⟩, hencode, he⟩ := Result.bind_eq_ok.mp he
    obtain ⟨more, hmore, he⟩ := Result.bind_eq_ok.mp he
    cases he
    rw [readColumns] at h
    obtain ⟨first, s, hfirst, h⟩ := Action.bind_eq_ok.mp h
    obtain ⟨second, t, hsecond, h⟩ := Action.bind_eq_ok.mp h
    obtain ⟨values, u, hvalues, h⟩ := Action.bind_eq_ok.mp h
    obtain ⟨hdecode, rfl⟩ := Action.ofExcept_eq_ok.mp hvalues
    have hdecode := Result.mapError_eq_ok.mp hdecode
    rcases k with _ | _ | k
    · obtain ⟨n', hn', hcount⟩ := readPart_follows (ht (by simp)) (by simpa using hr) hfirst
      exact absurd hdecode (Column.decode_count_as_bitmap hn hcount)
    · -- only the bitmap is there
      simp only [List.take_succ_cons, List.take_zero, framed_cons, framed_nil,
        List.append_nil] at hr
      have hbitmap := hm bitmap (by simp)
      obtain ⟨rfl, rest, hrest, rfl⟩ := readPart_first hbitmap hr hfirst
      obtain ⟨n', hn', hcount⟩ :=
        readPart_follows (r := r.facing rest) (ht (by simp)) (hr.facing hrest) hsecond
      exact absurd hdecode (Column.decode_count_as_values hn' hcount)
    · simp only [List.take_succ_cons, framed_cons, List.append_assoc] at hr
      simp only [List.take_succ_cons, List.forall_mem_cons] at hm
      obtain ⟨hbitmap, hdata, hmore'⟩ := hm
      obtain ⟨rfl, rest, hrest, rfl⟩ := readPart_first hbitmap hr hfirst
      have hr' : (r.facing rest).frames.Faces (frameBytes data ++ (framed (more.take k) ++ tail)) :=
        hr.facing hrest
      obtain ⟨rfl, rest', hrest', rfl⟩ := readPart_first hdata hr' hsecond
      have hread := Column.decode_encode field hencode
        fun v hv => (Field.check_eq_ok.mp (hcolumn.2 v hv)).1
      rw [hcolumn.1, hdecode] at hread
      cases hread
      obtain ⟨others, v, hothers, h⟩ := Action.bind_eq_ok.mp h
      have hr'' : ((r.facing rest).facing rest').frames.Faces (framed (more.take k) ++ tail) :=
        hr'.facing hrest'
      obtain ⟨hlength, rfl, rest'', hrest'', rfl⟩ :=
        ih hmore hmore' (fun hk => ht (by simpa using hk)) hr'' hothers
      cases h
      exact ⟨by simpa using hlength, rfl, rest'', hrest'', rfl⟩

/-! ### Batches -/

/-- A batch that is read was there as a whole, and is the batch that was written. -/
theorem readGroup_attempt {a : Attempt} {g : Option RowGroup} (ha : a.Made schema)
    (hsent : 0 < a.sent) (hs : r.schema = some schema)
    (ht : a.sent < (a.messages schema).length → Follows tail)
    (hr : r.frames.Faces (framed (a.outgoing schema) ++ tail))
    (h : readGroup r = (.ok g, r')) :
    a.Whole schema ∧ g = some (RowGroup.collected schema a.rows) ∧
      ∃ rest', rest' <+: tail ∧ r' = r.facing rest' := by
  obtain ⟨count, front, back, hcount, hfront, hback, hencode, hmessages, hout⟩ :=
    ha.outgoing_eq hsent
  have hframed := ha.framed
  have hfits := RowGroup.fits_collected ha.valid
  have hpos : 0 < a.rows.length := List.length_pos_iff.mpr ha.rows_ne
  have hcolumns := hfits.columns
  have hkeys := hfits.keyColumns
  have hofColumns := hfits.rectangular.ofColumns_eq
  rw [RowGroup.rowCount_collected] at hcolumns hkeys hofColumns
  rw [hmessages, List.length_cons, List.length_append] at ht
  rw [hout, List.forall_mem_cons, List.forall_mem_append] at hframed
  obtain ⟨hcountFramed, hfrontFramed, hbackFramed⟩ := hframed
  rw [hout, framed_cons, framed_append, List.append_assoc, List.append_assoc] at hr
  -- The row count comes first.
  rw [readGroup, Action.bind_ok (readSchema_known hs)] at h
  obtain ⟨message, s, hmessage, h⟩ := Action.bind_eq_ok.mp h
  obtain ⟨frames, hframes, rfl⟩ := onFrames_eq_ok hmessage
  obtain ⟨rfl, rest, hrest, rfl⟩ := FrameReader.readMessage_first hcountFramed hr hframes
  dsimp only at h
  rw [readBody, rowCount_encodeCount hcount] at h
  obtain ⟨rows, s, hrows, h⟩ := Action.bind_eq_ok.mp h
  cases hrows
  obtain ⟨s, _, hget, h⟩ := Action.bind_eq_ok.mp h
  cases hget
  split at h
  · cases h
  -- Then the value columns; when some of them are missing, so are all key columns.
  obtain ⟨found, s, hfound, h⟩ := Action.bind_eq_ok.mp h
  have hfollows : a.sent - 1 < front.length →
      Follows (framed (back.take (a.sent - 1 - front.length)) ++ tail) := by
    intro hlt
    rw [Nat.sub_eq_zero_of_le (Nat.le_of_lt hlt), List.take_zero]
    exact ht (by omega)
  obtain ⟨hfrontAll, rfl, rest', hrest', rfl⟩ := readColumns_taken (r := r.facing rest) hpos
    hcolumns hfront hfrontFramed hfollows (hr.facing hrest) hfound
  obtain ⟨foundKeys, s, hfoundKeys, h⟩ := Action.bind_eq_ok.mp h
  obtain ⟨hbackAll, rfl, rest'', hrest'', rfl⟩ :=
    readColumns_taken (r := (r.facing rest).facing rest') hpos hkeys hback hbackFramed
      (fun hlt => ht (by omega)) (hr.facing hrest') hfoundKeys
  rw [hofColumns] at h
  cases h
  refine ⟨⟨hencode, ?_⟩, rfl, rest'', hrest'', rfl⟩
  have hle := ha.sent_le
  rw [hmessages, List.length_cons, List.length_append] at hle ⊢
  omega

/-! ### Whole streams -/

/-- A reader that has not read anything yet. -/
structure Fresh (r : RowReader) : Prop where
  unannounced : r.schema = none
  unfinished : r.frames.finished = false

/-- The schema that is read is the one that was announced. -/
theorem readSchema_first {found : Schema} (hr : r.Fresh)
    (ha : frameOf schema.toJson.bytes = .ok (frameBytes schema.toJson.bytes))
    (hp : r.frames.rest <+: frameBytes schema.toJson.bytes ++ rest)
    (h : readSchema r = (.ok found, r')) :
    found = schema ∧ ∃ rest', rest' <+: rest ∧
      r' = { r.facing rest' with schema := some schema } := by
  rw [readSchema, Action.bind_ok (Action.get_apply r), hr.unannounced] at h
  obtain ⟨decoded, s, hjson, h⟩ := Action.bind_eq_ok.mp h
  obtain ⟨frames, hframes, rfl⟩ := onFrames_eq_ok hjson
  obtain ⟨message, t, hmessage, hdecode⟩ := Action.bind_eq_ok.mp hframes
  obtain ⟨rfl, rest', hrest, rfl⟩ :=
    FrameReader.readMessage_first ha ⟨hr.unfinished, hp⟩ hmessage
  simp only [Schema.decodeBytes_toJson, Action.pure_apply] at hdecode
  cases hdecode
  obtain ⟨⟨⟩, s, hcheck, h⟩ := Action.bind_eq_ok.mp h
  obtain ⟨-, rfl⟩ := Action.ofExcept_eq_ok.mp hcheck
  cases h
  exact ⟨rfl, rest', hrest, rfl⟩

/-- A reader that gets to the end has got every batch of which anything went out, as a whole. -/
theorem drain_attempts {attempts : List Attempt} (hs : r.schema = some schema)
    (hm : ∀ a ∈ attempts, a.Made schema)
    (hr : r.frames.Faces
      (framed (attempts.flatMap (Attempt.outgoing schema)) ++ (endMarker ++ rest)))
    (hclean : (drain r).1.fault = none) :
    (∀ a ∈ attempts, 0 < a.sent → a.Whole schema) ∧
      (drain r).1.batches =
        (attempts.filter (0 < ·.sent)).map (RowGroup.collected schema ·.rows) := by
  induction attempts generalizing r with
  | nil =>
    rcases hgroup : readGroup r with ⟨e | g, r'⟩
    · rw [drain_error hgroup] at hclean
      cases hclean
    · have hend := hgroup
      rw [readGroup, Action.bind_ok (readSchema_known hs)] at hend
      obtain ⟨message, s, hmessage, hend⟩ := Action.bind_eq_ok.mp hend
      obtain ⟨frames, hframes, -⟩ := onFrames_eq_ok hmessage
      obtain ⟨rfl, -⟩ := FrameReader.readMessage_end hr hframes
      cases hend
      rw [drain_none hgroup]
      exact ⟨by simp, rfl⟩
  | cons a attempts ih =>
    obtain ⟨ha, hlater⟩ := List.forall_mem_cons.mp hm
    rcases Nat.eq_zero_or_pos a.sent with hzero | hsent
    · have hnone : a.outgoing schema = [] := by rw [Attempt.outgoing, hzero, List.take_zero]
      rw [List.flatMap_cons, hnone, List.nil_append] at hr
      obtain ⟨hwhole, hbatches⟩ := ih hs hlater hr hclean
      refine ⟨List.forall_mem_cons.mpr ⟨fun hpos => by omega, hwhole⟩, ?_⟩
      rw [hbatches, List.filter_cons_of_neg (by simp [hzero])]
    · rw [List.flatMap_cons, framed_append, List.append_assoc] at hr
      rcases hgroup : readGroup r with ⟨e | g, r'⟩
      · rw [drain_error hgroup] at hclean
        cases hclean
      · obtain ⟨hwhole, rfl, rest', hrest', rfl⟩ :=
          readGroup_attempt ha hsent hs (fun _ => .attempts hlater (.marker rest)) hr hgroup
        rw [drain_some hgroup] at hclean ⊢
        obtain ⟨hwholes, hbatches⟩ := ih (r := r.facing rest') hs hlater (hr.facing hrest') hclean
        refine ⟨List.forall_mem_cons.mpr ⟨fun _ => hwhole, hwholes⟩, ?_⟩
        rw [hbatches, List.filter_cons_of_pos (by simpa using hsent), List.map_cons]

theorem rows_collected {attempts : List Attempt} (h : ∀ a ∈ attempts, a.Made schema) :
    (attempts.map (RowGroup.collected schema ·.rows)).flatMap RowGroup.intoRows =
      attempts.flatMap (·.rows) := by
  induction attempts with
  | nil => rfl
  | cons a attempts ih =>
    obtain ⟨ha, hrest⟩ := List.forall_mem_cons.mp h
    rw [List.map_cons, List.flatMap_cons, List.flatMap_cons, RowGroup.intoRows_collected ha.valid,
      ih hrest]

/-- The rows that a reader has got when it gets to the end of a stream. -/
theorem drain_ended {attempts : List Attempt} {stream : Bytes}
    (he : Ended schema attempts stream) (hr : r.Fresh) (hp : r.frames.rest <+: stream)
    (hclean : (drain r).1.fault = none) :
    (∀ a ∈ attempts, 0 < a.sent → a.Whole schema) ∧
      (drain r).1.rows = (attempts.filter (0 < ·.sent)).flatMap (·.rows) := by
  rw [he.stream_eq, sentMessages, framed_cons, List.append_assoc] at hp
  rcases hschema : readSchema r with ⟨e | found, r'⟩
  · have hgroup : readGroup r = (.error e, r') := Action.bind_error hschema
    rw [drain_error hgroup] at hclean
    cases hclean
  · obtain ⟨rfl, rest', hrest', hreader⟩ := readSchema_first hr he.announced hp hschema
    have hknown : r'.schema = some found := by rw [hreader]
    have hfaces : r'.frames.Faces
        (framed (attempts.flatMap (Attempt.outgoing found)) ++ (endMarker ++ [])) := by
      rw [hreader, List.append_nil]
      exact ⟨hr.unfinished, hrest'⟩
    rw [drain_congr (readGroup_of_readSchema hschema hknown)] at hclean ⊢
    obtain ⟨hwhole, hbatches⟩ := drain_attempts hknown he.made hfaces hclean
    refine ⟨hwhole, ?_⟩
    rw [Delivery.rows, hbatches, rows_collected fun a ha => he.made a (List.mem_of_mem_filter ha)]

theorem outgoing_whole {attempts : List Attempt}
    (hw : ∀ a ∈ attempts, 0 < a.sent → a.Whole schema) :
    attempts.flatMap (Attempt.outgoing schema) =
      (attempts.filter (0 < ·.sent)).flatMap (Attempt.messages schema) := by
  induction attempts with
  | nil => rfl
  | cons a attempts ih =>
    obtain ⟨ha, hrest⟩ := List.forall_mem_cons.mp hw
    rw [List.flatMap_cons, ih hrest]
    rcases Nat.eq_zero_or_pos a.sent with hzero | hsent
    · rw [List.filter_cons_of_neg (by simp [hzero]), Attempt.outgoing, hzero]
      rfl
    · rw [List.filter_cons_of_pos (by simpa using hsent), List.flatMap_cons, Attempt.outgoing,
        (ha hsent).sent_eq, List.take_length]

/-- A reader gets to the end of a stream of whole batches if nothing in it is too long. -/
theorem drain_whole {attempts : List Attempt} {stream : Bytes}
    (he : Ended schema attempts stream) (hw : ∀ a ∈ attempts, 0 < a.sent → a.Whole schema)
    (hr : r.Fresh) (hp : r.frames.rest = stream)
    (hc : checkSchema r.expected schema = .ok ())
    (hl : ∀ m ∈ sentMessages schema attempts, Passes r.frames.maxMessage m)
    (hn : ∀ a ∈ attempts, a.rows.length ≤ r.maxRows) : (drain r).1.fault = none := by
  let groups := (attempts.filter (0 < ·.sent)).map (RowGroup.collected schema ·.rows)
  have hmessages : groups.flatMap (·.messages schema) =
      attempts.flatMap (Attempt.outgoing schema) := by
    rw [outgoing_whole hw, List.flatMap_map]
    rfl
  have haccepts : ∀ g ∈ groups, Accepts { r with schema := some schema } schema g := by
    intro g hg
    obtain ⟨a, ha, rfl⟩ := List.mem_map.mp hg
    obtain ⟨ha, hsent⟩ := List.mem_filter.mp ha
    refine ⟨RowGroup.fits_collected (he.made a ha).valid,
      (hw a ha (of_decide_eq_true hsent)).encoded, ?_, ?_⟩
    · rw [RowGroup.rowCount_collected]
      exact hn a ha
    · intro m hm
      refine hl m (List.mem_cons_of_mem _ ?_)
      rw [← hmessages]
      exact List.mem_flatMap.mpr ⟨_, hg, hm⟩
  have hschema := readSchema_announced hr.unannounced hc hr.unfinished (hl _ List.mem_cons_self)
    (framed (attempts.flatMap (Attempt.outgoing schema)) ++ (endMarker ++ []))
  have hdrain := drain_groups (r := { r with schema := some schema }) rfl haccepts hr.unfinished []
  have hreader : r = r.facing (frameBytes schema.toJson.bytes ++
      (framed (attempts.flatMap (Attempt.outgoing schema)) ++ (endMarker ++ []))) := by
    rw [List.append_nil, ← List.append_assoc, ← framed_cons]
    exact he.stream_eq ▸ hp ▸ rfl
  rw [hmessages] at hdrain
  rw [hreader, drain_congr (readGroup_of_readSchema hschema rfl)]
  exact congrArg (·.1.fault) hdrain

end RowReader

/-! ### What a stream brings -/

/-- A stream brings some rows: every reader that gets to the end, whatever it accepts and even if
its connection may break, has got these rows, and every reader of the whole stream gets to the end
if its limits are large enough. -/
structure Brings (stream : Bytes) (rows : List Row) : Prop where
  complete : ∀ r : RowReader, r.Fresh → r.frames.rest <+: stream →
    (RowReader.drain r).1.fault = none → (RowReader.drain r).1.rows = rows
  reached : ∃ limit, ∀ r : RowReader, r.Fresh → r.frames.rest = stream → r.expected = none →
    limit ≤ r.frames.maxMessage → limit ≤ r.maxRows → (RowReader.drain r).1.fault = none

/-- A message that has a frame goes through to every reader whose limit is large enough. -/
theorem exists_passes {ms : List Bytes} (h : ∀ m ∈ ms, frameOf m = .ok (frameBytes m)) :
    ∃ limit, ∀ n, limit ≤ n → ∀ m ∈ ms, Passes n m := by
  induction ms with
  | nil => exact ⟨0, by simp⟩
  | cons m ms ih =>
    obtain ⟨hm, hms⟩ := List.forall_mem_cons.mp h
    obtain ⟨limit, hlimit⟩ := ih hms
    refine ⟨max limit (max (frameBytes m).length m.length), ?_⟩
    intro n hn
    have hpasses : Passes n m := ⟨hm, by omega, by omega⟩
    exact List.forall_mem_cons.mpr ⟨hpasses, hlimit n (by omega)⟩

theorem exists_length_le (attempts : List Attempt) :
    ∃ limit, ∀ a ∈ attempts, a.rows.length ≤ limit := by
  induction attempts with
  | nil => exact ⟨0, by simp⟩
  | cons a attempts ih =>
    obtain ⟨limit, hlimit⟩ := ih
    refine ⟨max limit a.rows.length, List.forall_mem_cons.mpr ⟨by omega, ?_⟩⟩
    intro b hb
    have hle := hlimit b hb
    omega

theorem Attempt.Whole.sent_pos {schema : Schema} {a : Attempt} (h : a.Whole schema) :
    0 < a.sent := by
  have hencode := h.encoded
  rw [RowGroup.encode] at hencode
  obtain ⟨count, -, hencode⟩ := Result.bind_eq_ok.mp hencode
  obtain ⟨columns, -, hencode⟩ := Result.bind_eq_ok.mp hencode
  have hmessages : a.messages schema = count :: columns := (Except.ok.inj hencode).symm
  rw [h.sent_eq, hmessages, List.length_cons]
  exact Nat.succ_pos _

/-- A stream of whole batches brings their rows. -/
theorem Ended.brings {schema : Schema} {attempts : List Attempt} {stream : Bytes}
    (h : Ended schema attempts stream) (hw : ∀ a ∈ attempts, a.Whole schema) :
    Brings stream (attempts.flatMap (·.rows)) where
  complete := by
    intro r hfresh hprefix hclean
    have hall : attempts.filter (0 < ·.sent) = attempts :=
      List.filter_eq_self.mpr fun a ha => decide_eq_true (hw a ha).sent_pos
    rw [(RowReader.drain_ended h hfresh hprefix hclean).2, hall]
  reached := by
    have hframed : ∀ m ∈ sentMessages schema attempts, frameOf m = .ok (frameBytes m) := by
      refine List.forall_mem_cons.mpr ⟨h.announced, ?_⟩
      intro m hm
      obtain ⟨a, ha, hm⟩ := List.mem_flatMap.mp hm
      exact (h.made a ha).framed m hm
    obtain ⟨messageLimit, hpasses⟩ := exists_passes hframed
    obtain ⟨rowLimit, hrows⟩ := exists_length_le attempts
    refine ⟨max messageLimit rowLimit, ?_⟩
    intro r hfresh hstream hexpected hmessage hbatch
    have hcheck : RowReader.checkSchema r.expected schema = .ok () := by
      rw [hexpected]
      rfl
    refine RowReader.drain_whole h (fun a ha _ => hw a ha) hfresh hstream hcheck
      (hpasses _ (by omega)) ?_
    intro a ha
    have hle := hrows a ha
    omega

end StagedQuery

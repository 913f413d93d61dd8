import StagedQuery.Proofs.Stream.Cursor
import StagedQuery.Proofs.Stream.Payload
import StagedQuery.Proofs.Stream.Unended
import StagedQuery.Proofs.Wire.Limits

/-!
# Readers of any bytes

A reader is given bytes, and nothing is known of them. What it hands out is checked all the same: a
column that is read has an entry for each row, and its field admits them
(`Column.decode_admits`), so a batch fits the schema that was announced and is not too large
(`RowReader.readGroup_carries`), and its rows validate against that schema.

Whatever is asked of a reader, its limits stay, the schema stays once it was announced, and the rows
that were not handed out yet validate against it (`RowReader.Onward`). `RowReader.safe_afterCalls`
puts this together for every sequence of calls.
-/

namespace StagedQuery

open StagedQuery.Action

namespace RowReader

/-! ### What reading does to a reader -/

/-- The row fits the schema that was announced. -/
def Validates (r : RowReader) (row : Row) : Prop :=
  ∃ schema, r.schema = some schema ∧ row.validate schema = .ok ()

/-- The rows that were not handed out yet fit the schema. -/
def Sound (r : RowReader) : Prop := ∀ row ∈ r.current, r.Validates row

/-- What stays when a reader is used. -/
structure Onward (r r' : RowReader) : Prop where
  frames : r.frames.Alike r'.frames
  maxRows : r'.maxRows = r.maxRows
  schema : ∀ schema, r.schema = some schema → r'.schema = some schema
  sound : r.Sound → r'.Sound

instance : IsPreorder RowReader Onward where
  refl := fun _ => ⟨⟨rfl, rfl⟩, rfl, fun _ h => h, fun h => h⟩
  trans := fun _ _ _ h h' =>
    ⟨IsTrans.trans _ _ _ h.frames h'.frames, h'.maxRows.trans h.maxRows,
      fun schema hs => h'.schema schema (h.schema schema hs), fun hs => h'.sound (h.sound hs)⟩

variable {r r' : RowReader} {schema : Schema}

theorem Onward.validates (h : r.Onward r') {row : Row} (hrow : r.Validates row) :
    r'.Validates row := by
  obtain ⟨schema, hs, hvalid⟩ := hrow
  exact ⟨schema, h.schema schema hs, hvalid⟩

theorem onward_frames {frames : FrameReader} (h : r.frames.Alike frames) :
    r.Onward { r with frames } where
  frames := h
  maxRows := rfl
  schema := fun _ hs => hs
  sound := fun hs => hs

theorem onward_announced {frames : FrameReader} (hnone : r.schema = none)
    (h : r.frames.Alike frames) (schema : Schema) :
    r.Onward { r with frames, schema := some schema } where
  frames := h
  maxRows := rfl
  schema := by
    intro known hknown
    rw [hnone] at hknown
    cases hknown
  sound := by
    -- Without a schema no row is left from before.
    intro hs row hrow
    obtain ⟨known, hknown, -⟩ := hs row hrow
    rw [hnone] at hknown
    cases hknown

/-! ### The schema -/

/-- A reader has the schema, or it reads and checks it, or it fails and still has none. -/
theorem readSchema_cases (r : RowReader) :
    (∃ schema, r.schema = some schema ∧ readSchema r = (.ok schema, r)) ∨
      r.schema = none ∧ ∃ frames, r.frames.Alike frames ∧
        ((∃ schema, checkSchema r.expected schema = .ok () ∧
            readSchema r = (.ok schema, { r with frames, schema := some schema })) ∨
          ∃ e, readSchema r = (.error e, { r with frames })) := by
  rcases r with ⟨start, expected, _ | schema, maxRows, current⟩
  · right
    have halike := FrameReader.always_readJson Schema.decoder start
    rcases hjson : FrameReader.readJson Schema.decoder start with ⟨result, frames⟩
    rw [hjson] at halike
    have hread := onFrames_eq (r := { frames := start, expected, maxRows, current }) hjson
    refine ⟨rfl, frames, halike, ?_⟩
    rw [readSchema, bind_ok (get_apply _)]
    dsimp only
    cases result with
    | error e => exact .inr ⟨e, bind_error hread⟩
    | ok found =>
      rw [bind_ok hread]
      cases found with
      | none => exact .inr ⟨_, rfl⟩
      | some schema =>
        dsimp only
        cases hcheck : checkSchema expected schema with
        | error e => exact .inr ⟨e, rfl⟩
        | ok _ => exact .inl ⟨schema, hcheck, rfl⟩
  · exact .inl ⟨schema, rfl, readSchema_known rfl⟩

theorem always_readSchema : Always Onward readSchema := by
  intro r
  obtain ⟨schema, -, h⟩ | ⟨hnone, frames, halike, ⟨schema, -, h⟩ | ⟨e, h⟩⟩ := readSchema_cases r
  · rw [h]
    exact refl_of Onward r
  · rw [h]
    exact onward_announced hnone halike schema
  · rw [h]
    exact onward_frames halike

/-- A schema that is read is known from then on. -/
theorem schema_of_readSchema (h : readSchema r = (.ok schema, r')) : r'.schema = some schema := by
  obtain ⟨known, hknown, hread⟩ | ⟨-, frames, -, ⟨found, -, hread⟩ | ⟨e, hread⟩⟩ :=
    readSchema_cases r
  · rw [hread] at h
    cases h
    exact hknown
  · rw [hread] at h
    cases h
    rfl
  · rw [hread] at h
    cases h

/-! ### Batches -/

/-- Going on with the frames is a step of `R`, and so is reading the schema. -/
structure Steps (R : RowReader → RowReader → Prop) : Prop where
  frames : ∀ r frames, r.frames.Alike frames → R r { r with frames }
  schema : Always R readSchema

/-! Then so is reading a batch. -/

namespace Steps

variable {R : RowReader → RowReader → Prop} (h : Steps R)
include h

theorem onFrames {α : Type} {x : Action FrameReader α} (hx : Always FrameReader.Alike x) :
    Always R (onFrames x) :=
  always_zoom hx h.frames

variable [IsPreorder RowReader R]

theorem readPart : Always R readPart := by
  refine .bind (h.onFrames FrameReader.always_readMessage) fun m => ?_
  cases m with
  | none => exact always_fail _
  | some m => exact always_pure _

theorem readColumns (rows : Nat) (fields : List Field) : Always R (readColumns rows fields) := by
  induction fields with
  | nil => exact always_pure _
  | cons field fields ih =>
    exact .bind h.readPart fun _ => .bind h.readPart fun _ =>
      .bind (always_ofExcept _) fun _ => .bind ih fun _ => always_pure _

theorem readBody (schema : Schema) (message : Bytes) : Always R (readBody schema message) := by
  refine .bind (always_ofExcept _) fun rows => .bind always_get fun r => ?_
  split
  · exact always_fail _
  · exact .bind (h.readColumns _ _) fun _ => .bind (h.readColumns _ _) fun _ =>
      .bind (always_ofExcept _) fun _ => always_pure _

theorem readGroup : Always R readGroup := by
  refine .bind h.schema fun schema => ?_
  refine .bind (h.onFrames FrameReader.always_readMessage) fun m => ?_
  cases m with
  | none => exact always_pure _
  | some message => exact h.readBody schema message

end Steps

theorem steps_onward : Steps Onward where
  frames := fun _ _ => onward_frames
  schema := always_readSchema

theorem always_readGroup : Always Onward readGroup := steps_onward.readGroup

theorem readColumns_admits {rows : Nat} {fields : List Field} {columns : List (List Value)}
    (h : readColumns rows fields r = (.ok columns, r')) :
    List.Forall₂ (Field.Admits rows) fields columns := by
  induction fields generalizing r columns with
  | nil =>
    cases h
    exact .nil
  | cons field fields ih =>
    obtain ⟨bitmap, s, -, h⟩ := bind_eq_ok.mp h
    obtain ⟨values, t, -, h⟩ := bind_eq_ok.mp h
    obtain ⟨column, u, hcolumn, h⟩ := bind_eq_ok.mp h
    obtain ⟨others, v, hothers, h⟩ := bind_eq_ok.mp h
    cases h
    obtain ⟨hdecode, rfl⟩ := ofExcept_eq_ok.mp hcolumn
    exact .cons (Column.decode_admits (Result.mapError_eq_ok.mp hdecode)) (ih hothers)

/-- The batch has the columns that were announced, and no more rows than the reader accepts. -/
structure Carries (r : RowReader) (g : RowGroup) : Prop where
  fits : ∃ schema, r.schema = some schema ∧ g.Fits schema
  rows_le : g.rowCount ≤ r.maxRows

theorem readBody_fits {message : Bytes} {g : RowGroup}
    (h : readBody schema message r = (.ok (some g), r')) :
    g.Fits schema ∧ g.rowCount ≤ r.maxRows := by
  obtain ⟨rows, s, hrows, hbody⟩ := bind_eq_ok.mp h
  obtain ⟨-, rfl⟩ := ofExcept_eq_ok.mp hrows
  obtain ⟨_, _, ⟨⟩, h⟩ := bind_eq_ok.mp hbody
  split at h
  · cases h
  rename_i hle
  obtain ⟨columns, s, hcolumns, h⟩ := bind_eq_ok.mp h
  obtain ⟨keyColumns, t, hkeys, h⟩ := bind_eq_ok.mp h
  obtain ⟨group, u, hread, hreturn⟩ := bind_eq_ok.mp h
  obtain ⟨hgroup, rfl⟩ := ofExcept_eq_ok.mp hread
  obtain ⟨rfl, -⟩ := RowGroup.ofColumns_eq_ok_iff.mp (Result.mapError_eq_ok.mp hgroup)
  cases hreturn
  exact ⟨⟨readColumns_admits hcolumns, readColumns_admits hkeys⟩, Nat.not_lt.mp hle⟩

theorem readGroup_carries {g : RowGroup} (h : readGroup r = (.ok (some g), r')) :
    r'.Carries g := by
  have honward := always_readGroup r
  rw [h] at honward
  obtain ⟨schema, s, hschema, h⟩ := bind_eq_ok.mp h
  obtain ⟨m, t, hmessage, h⟩ := bind_eq_ok.mp h
  have hs := schema_of_readSchema hschema
  have ht := steps_onward.onFrames FrameReader.always_readMessage s
  rw [hmessage] at ht
  cases m with
  | none => cases h
  | some message =>
    have hbody : readBody schema message t = (.ok (some g), r') := h
    have hr' := steps_onward.readBody schema message t
    rw [hbody] at hr'
    obtain ⟨hfits, hle⟩ := readBody_fits hbody
    rw [← hr'.maxRows] at hle
    exact ⟨⟨schema, hr'.schema _ (ht.schema _ hs), hfits⟩, hle⟩

/-! ### Rows -/

theorem onward_skip {g : RowGroup} (h : readGroup r = (.ok (some g), r')) :
    r.Onward { r' with current := g.intoRows } := by
  have honward := always_readGroup r
  rw [h] at honward
  obtain ⟨schema, hs, hfits⟩ := (readGroup_carries h).fits
  exact ⟨honward.frames, honward.maxRows, honward.schema,
    fun _ row hrow => ⟨schema, hs, hfits.validate hrow⟩⟩

/-- Rows that are handed out one by one fit the schema. -/
theorem readRow_safe (r : RowReader) :
    r.Onward (readRow r).2 ∧
      ∀ row, r.Sound → (readRow r).1 = .ok (some row) → (readRow r).2.Validates row := by
  fun_induction readRow r with
  | case1 r row current hcurrent =>
    refine ⟨⟨refl_of _ _, rfl, fun _ hs => hs, ?_⟩, ?_⟩
    · intro hsound row hrow
      exact hsound row (hcurrent ▸ List.mem_cons_of_mem _ hrow)
    · rintro _ hsound ⟨⟩
      exact hsound row (hcurrent ▸ List.mem_cons_self)
  | case2 r hcurrent e r' h =>
    have honward := always_readGroup r
    rw [h] at honward
    exact ⟨honward, nofun⟩
  | case3 r hcurrent r' h =>
    have honward := always_readGroup r
    rw [h] at honward
    exact ⟨honward, nofun⟩
  | case4 r hcurrent r' g h ih =>
    obtain ⟨honward, hvalid⟩ := ih
    have hskip := onward_skip h
    refine ⟨trans_of Onward hskip honward, ?_⟩
    intro row hsound hrow
    exact hvalid row (hskip.sound hsound) hrow

/-- So do the batches of everything that a reader can still get. There are not more of them than
bytes. -/
theorem drain_safe (r : RowReader) :
    r.Onward (drain r).2 ∧ (∀ g ∈ (drain r).1.batches, (drain r).2.Carries g) ∧
      (drain r).1.batches.length ≤ r.left := by
  induction hleft : r.left using Nat.strongRecOn generalizing r with
  | ind left ih =>
    have honward := always_readGroup r
    rcases hgroup : readGroup r with ⟨e | _ | g, r'⟩
    · rw [hgroup] at honward
      rw [drain_error hgroup]
      exact ⟨honward, fun g hg => absurd hg List.not_mem_nil, Nat.zero_le _⟩
    · rw [hgroup] at honward
      rw [drain_none hgroup]
      exact ⟨honward, fun g hg => absurd hg List.not_mem_nil, Nat.zero_le _⟩
    · rw [hgroup] at honward
      rw [drain_some hgroup]
      have hless : r'.left < left := hleft ▸ readGroup_left hgroup
      obtain ⟨hlater, hcarries, hlength⟩ := ih r'.left hless r' rfl
      refine ⟨trans_of Onward honward hlater, ?_, ?_⟩
      · obtain ⟨⟨schema, hs, hfits⟩, hle⟩ := readGroup_carries hgroup
        rw [← hlater.maxRows] at hle
        exact List.forall_mem_cons.mpr ⟨⟨⟨schema, hlater.schema _ hs, hfits⟩, hle⟩, hcarries⟩
      · rw [List.length_cons]
        omega

theorem always_readAll : Always Onward readAll := by
  intro r
  obtain ⟨honward, -⟩ := drain_safe r
  have hempty : (drain r).2.Onward { (drain r).2 with current := [] } :=
    ⟨refl_of _ _, rfl, fun _ hs => hs, fun _ row hrow => absurd hrow List.not_mem_nil⟩
  rw [readAll]
  dsimp only
  split
  · exact trans_of Onward honward hempty
  · exact trans_of Onward honward hempty

theorem readAll_safe {rows : List Row} (hsound : r.Sound) (h : readAll r = (.ok rows, r')) :
    (∀ row ∈ rows, r'.Validates row) ∧ rows.length ≤ r.current.length + r.maxRows * r.left := by
  obtain ⟨honward, hcarries, hlength⟩ := drain_safe r
  obtain ⟨-, rfl, rfl⟩ := readAll_eq_ok.mp h
  constructor
  · refine List.forall_mem_append.mpr ⟨fun row hrow => honward.validates (hsound row hrow), ?_⟩
    intro row hrow
    obtain ⟨g, hg, hrow⟩ := List.mem_flatMap.mp hrow
    obtain ⟨schema, hs, hfits⟩ := (hcarries g hg).fits
    exact ⟨schema, hs, hfits.validate hrow⟩
  · rw [List.length_append, Delivery.rows]
    refine Nat.add_le_add_left (Nat.le_trans ?_ (Nat.mul_le_mul_left r.maxRows hlength)) _
    refine RowGroup.length_flatMap_intoRows_le fun g hg => ?_
    rw [← honward.maxRows]
    exact (hcarries g hg).rows_le

/-- A reader of a transport that was shut down never waits. -/
theorem readAll_ends (hclosed : r.frames.closed = true) : (readAll r).1 ≠ .error .wouldBlock := by
  have hkeeps : FrameReader.Keeps (fun frames => frames.closed = true) True
      (Error.Reportable true) :=
    { readFrame := FrameReader.readFrame_reportable.mono fun _ _ _ => trivial
      other := fun _ he => Error.reportable he true }
  obtain ⟨-, herror⟩ := hkeeps.drain hclosed
  rw [readAll]
  dsimp only
  split
  · rename_i e hfault
    rintro ⟨⟩
    exact herror _ hfault rfl rfl
  · nofun

/-! ### Sequences of calls -/

/-- What can be asked of a reader. -/
inductive Call
  | schema
  | group
  | row
  | all

/-- The reader after a call. -/
def Call.after : Call → RowReader → RowReader
  | .schema, r => (readSchema r).2
  | .group, r => (readGroup r).2
  | .row, r => (readRow r).2
  | .all, r => (readAll r).2

/-- The reader after some calls. -/
def afterCalls (calls : List Call) (r : RowReader) : RowReader :=
  calls.foldl (fun r call => call.after r) r

/-- A reader of bytes that nothing follows. -/
def ofBytes (bytes : Bytes) (expected : Option Schema) (maxMessage maxRows : Nat) : RowReader where
  frames := { rest := bytes, maxMessage }
  expected
  maxRows := max maxRows 1

theorem Call.onward (call : Call) (r : RowReader) : r.Onward (call.after r) := by
  cases call with
  | schema => exact always_readSchema r
  | group => exact always_readGroup r
  | row => exact (readRow_safe r).1
  | all => exact always_readAll r

theorem onward_afterCalls (calls : List Call) (r : RowReader) : r.Onward (afterCalls calls r) := by
  induction calls generalizing r with
  | nil => exact refl_of Onward r
  | cons call calls ih => exact trans_of Onward (call.onward r) (ih (call.after r))

/-- Whatever the bytes are, and whatever was asked of a reader before:

* reading everything comes to an end, with an error or with rows; they fit the schema that the
  stream announced, and there are not more of them than batches of the largest size could bring;
* a batch has as many rows as the reader accepts at most, and the columns of the schema, each with
  an entry for each row; and a single row fits the schema;
* the schema, once it was announced, is not exchanged;
* no message is longer than the limit of the reader, nor is what it was unpacked from;
* columns and row counts are read without looking at a place that is not there. -/
theorem safe_afterCalls (bytes : Bytes) (expected : Option Schema) (maxMessage maxRows : Nat)
    (calls : List Call) :
    let r := afterCalls calls (ofBytes bytes expected maxMessage maxRows)
    ((∃ e, e ≠ .wouldBlock ∧ (readAll r).1 = .error e) ∨
        ∃ rows r', readAll r = (.ok rows, r') ∧ (∀ row ∈ rows, r'.Validates row) ∧
          rows.length ≤ r.current.length + max maxRows 1 * r.left) ∧
      (∀ g r', readGroup r = (.ok (some g), r') →
        g.rowCount ≤ max maxRows 1 ∧ ∃ schema, r'.schema = some schema ∧ g.Fits schema) ∧
      (∀ row r', readRow r = (.ok (some row), r') → r'.Validates row) ∧
      (∀ schema later, r.schema = some schema → (afterCalls later r).schema = some schema) ∧
      (r.frames.maxMessage = maxMessage ∧ ∀ frames : FrameReader,
        frames.readFrame.2.maxMessage = frames.maxMessage ∧
          ∀ m frames', frames.readFrame = (.ok (.message m), frames') →
            m.length ≤ frames.maxMessage ∧
              frames.rest.length ≤ 4 + frames.maxMessage + frames'.rest.length) ∧
      (∀ field rows bitmap values, Column.Positional.decode field rows bitmap values =
        (Column.decode field rows bitmap values).mapError .refused) ∧
      ∀ message, Column.Positional.rowCount message = (rowCount message).mapError .refused := by
  intro r
  have honward : (ofBytes bytes expected maxMessage maxRows).Onward r := onward_afterCalls calls _
  have hlimit : r.maxRows = max maxRows 1 := honward.maxRows
  have hsound : r.Sound := honward.sound fun row hrow => absurd hrow List.not_mem_nil
  refine ⟨?_, ?_, ?_, ?_, ⟨honward.frames.1, ?_⟩, Column.Positional.decode_eq,
    Column.Positional.rowCount_eq⟩
  · rcases hall : readAll r with ⟨e | rows, r'⟩
    · have hends := readAll_ends (r := r) honward.frames.2
      rw [hall] at hends
      exact .inl ⟨e, fun he => hends (congrArg Except.error he), rfl⟩
    · obtain ⟨hvalid, hlength⟩ := readAll_safe hsound hall
      exact .inr ⟨rows, r', rfl, hvalid, hlimit ▸ hlength⟩
  · intro g r' hgroup
    have hr' := always_readGroup r
    rw [hgroup] at hr'
    obtain ⟨hfits, hle⟩ := readGroup_carries hgroup
    exact ⟨hlimit ▸ hr'.maxRows ▸ hle, hfits⟩
  · intro row r' hrow
    have hvalid := (readRow_safe r).2 row hsound
    rw [hrow] at hvalid
    exact hvalid rfl
  · exact fun schema later hs => (onward_afterCalls later r).schema schema hs
  · exact fun frames =>
      ⟨(FrameReader.always_readFrame frames).1, fun m frames' => FrameReader.length_of_readFrame⟩

end RowReader

end StagedQuery

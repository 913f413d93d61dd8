import Mathlib.Data.List.Sublists
import StagedQuery.Executor.Work
import StagedQuery.Proofs.Stream.RoundTrip

/-!
# Rows that go through

Some rows are portable under a limit if they can be sent however they are cut into batches: they fit
the schema, they can be counted, and every message has a frame that a reader with this limit
accepts. Parts of portable rows are portable (`Portable.sublist`). On a transport that takes
everything a writer of a query takes portable rows and can be closed (`Portable.written`), and the
readers of the query get them back (`Sink.Carries.drain`).
-/

namespace StagedQuery

/-- However the rows are cut into batches, each batch can be written, and a reader that accepts
messages up to `limit` accepts its messages. -/
structure Portable (limit : Nat) (schema : Schema) (rows : List Row) : Prop where
  announced : Passes limit schema.toJson.bytes
  valid : ∀ row ∈ rows, row.validate schema = .ok ()
  countable : ∀ row ∈ rows, row.Countable
  length_lt : rows.length < 0x80000000
  passes : ∀ batch ∈ rows.sublists, ∀ m ∈ (RowGroup.collected schema batch).messages schema,
    Passes limit m

namespace Portable

variable {limit : Nat} {schema : Schema} {rows part : List Row}

theorem sublist (h : Portable limit schema rows) (hp : part.Sublist rows) :
    Portable limit schema part where
  announced := h.announced
  valid := fun row hrow => h.valid row (hp.subset hrow)
  countable := fun row hrow => h.countable row (hp.subset hrow)
  length_lt := Nat.lt_of_le_of_lt hp.length_le h.length_lt
  passes := fun batch hb =>
    h.passes batch (List.mem_sublists.mpr ((List.mem_sublists.mp hb).trans hp))

theorem writable (h : Portable limit schema rows) (hp : part.Sublist rows) :
    Writable schema part where
  valid := (h.sublist hp).valid
  countable := (h.sublist hp).countable
  length_lt := (h.sublist hp).length_lt
  framed := fun m hm => (h.passes part (List.mem_sublists.mpr hp) m hm).framed

end Portable

/-- The transport holds the stream of some rows, as an executor of the query writes it. -/
structure Sink.Carries (config : QuerySettings) (schema : Schema) (rows : List Row)
    (sink : Sink) : Prop where
  portable : Portable config.maxMessageSize schema rows
  stream : ∃ batches, sink.bytes = streamBytes schema batches ∧ batches.flatten = rows ∧
    ∀ batch ∈ batches, batch.length ≤ max config.flushThreshold 1

variable {config : QuerySettings} {schema : Schema} {rows : List Row}

/-- A writer takes rows of which the batches can be written, and its stream is that of the
batches. -/
theorem QuerySettings.session_rows (hannounced : frameOf schema.toJson.bytes =
    .ok (frameBytes schema.toJson.bytes))
    (hwritable : ∀ batch ∈ RowWriter.batches config.flushThreshold (rows.map .row),
      Writable schema batch) :
    ∃ w, RowWriter.session (rows.map .row) (config.writer schema {}) = (.ok (), w) ∧
      w.frames.sink.bytes =
        streamBytes schema (RowWriter.batches config.flushThreshold (rows.map .row)) := by
  have hnever : ({} : Sink).NeverFails := fun _ _ => rfl
  have hvalid : ∀ row ∈ (rows.map RowWriter.Call.row).flatMap RowWriter.Call.rows,
      row.validate schema = .ok () := by
    intro row hrow
    rw [← RowWriter.flatten_batches config.flushThreshold] at hrow
    obtain ⟨batch, hb, hrow⟩ := List.mem_flatten.mp hrow
    exact (hwritable batch hb).valid row hrow
  obtain ⟨w, hsession, hbytes⟩ := RowWriter.session_eq hnever hvalid hannounced hwritable
  have hempty : ({} : Sink).bytes = [] := rfl
  rw [hempty, List.nil_append] at hbytes
  exact ⟨w, hsession, hbytes⟩

/-- A writer takes portable rows, and can be closed. -/
theorem Portable.written (h : Portable config.maxMessageSize schema rows) :
    ∃ w w', RowWriter.writeRows rows (config.writer schema {}) = (.ok (), w) ∧
      RowWriter.close w = (.ok (), w') ∧ w'.frames.sink.Carries config schema rows := by
  have hflatten : (RowWriter.batches config.flushThreshold (rows.map .row)).flatten = rows :=
    (RowWriter.flatten_batches ..).trans (RowWriter.Call.flatMap_rows_row rows)
  obtain ⟨w', hsession, hbytes⟩ := QuerySettings.session_rows h.announced.framed fun batch hb =>
    h.writable (hflatten ▸ List.sublist_flatten_of_mem hb)
  obtain ⟨⟨⟩, w, hwrite, hclose⟩ := Action.bind_eq_ok.mp hsession
  rw [Action.each_map] at hwrite
  exact ⟨w, w', hwrite, hclose, h, _, hbytes, hflatten,
    fun batch => RowWriter.length_le_of_mem_batches⟩

/-- The rows that a reader of the query finds on a stream. -/
def QuerySettings.read (config : QuerySettings) (sink : Sink) : List Row :=
  (RowReader.drain (config.reader sink)).1.rows

/-- A reader of the query gets the batches of a stream, if nothing in it is too long. -/
theorem QuerySettings.drain_reader {sink : Sink} {batches : List (List Row)}
    (hbytes : sink.bytes = streamBytes schema batches)
    (hpasses : ∀ m ∈ streamMessages schema batches, Passes config.maxMessageSize m)
    (hbatches : ∀ batch ∈ batches,
      Writable schema batch ∧ batch.length ≤ max config.flushThreshold 1) :
    (RowReader.drain (config.reader sink)).1.fault = none ∧ config.read sink = batches.flatten := by
  obtain ⟨r, hschema, hknown, -, hdrain⟩ :=
    RowReader.drain_stream (r := config.reader sink) rfl rfl rfl hpasses hbatches []
  have hreader : (config.reader sink).facing (streamBytes schema batches ++ []) =
      config.reader sink := by
    rw [List.append_nil, ← hbytes]
    rfl
  rw [hreader] at hschema
  rw [QuerySettings.read, RowReader.drain_congr (RowReader.readGroup_of_readSchema hschema hknown),
    hdrain]
  refine ⟨rfl, ?_⟩
  exact RowReader.flatMap_intoRows_collected fun batch hb => (hbatches batch hb).1.valid

/-- The readers of the query get the rows back. -/
theorem Sink.Carries.drain {sink : Sink} (h : sink.Carries config schema rows) :
    (RowReader.drain (config.reader sink)).1.fault = none ∧ config.read sink = rows := by
  obtain ⟨batches, hbytes, hflatten, hlength⟩ := h.stream
  have hsublist : ∀ batch ∈ batches, batch.Sublist rows := fun batch hb =>
    hflatten ▸ List.sublist_flatten_of_mem hb
  have hpasses : ∀ m ∈ streamMessages schema batches, Passes config.maxMessageSize m := by
    refine List.forall_mem_cons.mpr ⟨h.portable.announced, ?_⟩
    intro m hm
    obtain ⟨batch, hb, hm⟩ := List.mem_flatMap.mp hm
    exact h.portable.passes batch (List.mem_sublists.mpr (hsublist batch hb)) m hm
  rw [← hflatten]
  exact QuerySettings.drain_reader hbytes hpasses fun batch hb =>
    ⟨h.portable.writable (hsublist batch hb), hlength batch hb⟩

end StagedQuery

import StagedQuery.Cluster.Control
import StagedQuery.Cluster.Report
import StagedQuery.Proofs.Codec.Data
import StagedQuery.Proofs.Identifier

/-!
# Reports, settings and answers are read back

Whatever is in them, the texts of reports, settings and answers are read as what was written. The
counts of a message have 64 bits where it comes from, and numbers beyond that would be refused: for
each type of message, `In64` says of its numbers that they have 64 bits.
-/

namespace StagedQuery

namespace Json

/-! ### Scalars -/

theorem fits64_of_lt {n : Nat} (h : n < UInt64.size) : Fits64 n := by
  simp only [Fits64, UInt64.size] at h ⊢
  omega

@[simp] theorem natural_integer {n : Nat} (h : n < UInt64.size) (scope : Scope) :
    natural scope (integer n) = some n := by
  have hn : (0 : Int) ≤ n ∧ (n : Int) ≤ 0xffffffffffffffff := by
    rw [UInt64.size] at h
    omega
  simp [natural, bounded, hn]

@[simp] theorem uint16_integer (n : UInt16) (scope : Scope) :
    uint16 scope (integer n.toNat) = some n := by
  have hlt := n.toNat_lt
  have hn : (0 : Int) ≤ n.toNat ∧ (n.toNat : Int) ≤ 0xffff := by omega
  simp [uint16, bounded, hn]

theorem fits64_uint16 (n : UInt16) : Fits64 n.toNat :=
  fits64_of_lt (Nat.lt_trans n.toNat_lt (by decide))

theorem fits64_uint8 (n : UInt8) : Fits64 n.toNat :=
  fits64_of_lt (Nat.lt_trans n.toNat_lt (by decide))

theorem natural_readsBack {n : Nat} (h : n < UInt64.size) (depth : Nat) :
    ReadsBack natural (fun n : Nat => .integer n) depth n :=
  ⟨fits64_of_lt h, fun scope _ => natural_integer h scope⟩

theorem text_readsBack (s : String) (depth : Nat) : ReadsBack text .string depth s :=
  ⟨trivial, fun _ _ => rfl⟩

end Json

theorem StageJob.byte_readsBack (b : UInt8) (depth : Nat) :
    Json.ReadsBack byteDecoder (fun b : UInt8 => .integer b.toNat) depth b where
  writable := Json.fits64_uint8 b
  reads scope _ := by
    have hlt := b.toNat_lt
    have hb : (0 : Int) ≤ b.toNat ∧ (b.toNat : Int) ≤ 255 := by omega
    simp [byteDecoder, Json.bounded, hb]

theorem Identifier.readsBack (id : Identifier) (depth : Nat) :
    Json.ReadsBack decoder toJson depth id :=
  ⟨trivial, fun _ _ => ofText?_text id⟩

theorem JobStatus.readsBack (s : JobStatus) (depth : Nat) :
    Json.ReadsBack decoder toJson depth s :=
  ⟨trivial, fun _ _ => by cases s <;> rfl⟩

theorem LogLevel.readsBack (l : LogLevel) (depth : Nat) : Json.ReadsBack decoder toJson depth l :=
  ⟨trivial, fun _ _ => by cases l <;> rfl⟩

/-! ### Reports -/

/-- The index of an output has 64 bits. -/
def Location.In64 (l : Location) : Prop := l.channel < UInt64.size

instance (l : Location) : Decidable l.In64 := inferInstanceAs (Decidable (_ < _))

theorem Location.readsBack {l : Location} (h : l.In64) : Json.ReadsBack decoder toJson 2 l where
  writable := ⟨trivial, trivial, Json.fits64_uint16 _, Json.fits64_uint16 _,
    Json.fits64_of_lt h, trivial⟩
  reads scope hs := by
    obtain ⟨inner, hi, -⟩ := Json.enter?_of_lt hs Nat.one_pos
    have hchannel := Json.natural_integer h inner
    simp [decoder, toJson, Json.fields?, hi, Json.field, Json.text, hchannel]

/-- The time of a log entry has 64 bits. -/
def LogEntry.In64 (e : LogEntry) : Prop := e.time < UInt64.size

instance (e : LogEntry) : Decidable e.In64 := inferInstanceAs (Decidable (_ < _))

theorem LogEntry.readsBack {e : LogEntry} (h : e.In64) : Json.ReadsBack decoder toJson 2 e where
  writable := ⟨Json.fits64_of_lt h, (e.level.readsBack 0).writable, trivial, trivial⟩
  reads scope hs := by
    obtain ⟨inner, hi, hd⟩ := Json.enter?_of_lt hs Nat.one_pos
    have htime := Json.natural_integer h inner
    have hlevel := (e.level.readsBack 1).reads inner hd
    simp [decoder, toJson, Json.fields?, hi, Json.field, Json.text, htime, hlevel]

/-- The numbers of a report have 64 bits. -/
structure Heartbeat.In64 (h : Heartbeat) : Prop where
  location : h.location.In64
  logs : ∀ e ∈ h.logs, e.In64

theorem Heartbeat.readsBack {h : Heartbeat} (hh : h.In64) :
    Json.ReadsBack decoder toJson 4 h := by
  have hlocation := Location.readsBack hh.location
  have hlogs := Json.ReadsBack.list (by decide) fun e he => LogEntry.readsBack (hh.logs e he)
  refine ⟨⟨hlocation.writable, trivial, trivial, hlogs.writable, trivial⟩, fun scope hs => ?_⟩
  obtain ⟨inner, hi, hd⟩ := Json.enter?_of_lt hs (by decide)
  have hlocation := hlocation.reads inner (by omega)
  have hlogs := hlogs.reads inner hd
  have hstatus := (h.status.readsBack 3).reads inner hd
  have htask := (h.taskId.readsBack 3).reads inner hd
  simp [decoder, toJson, Json.fields?, hi, Json.field, hlocation, hlogs, hstatus, htask]

/-! ### Settings -/

/-- The times of the settings have 64 bits. -/
structure ReportSettings.In64 (c : ReportSettings) : Prop where
  fastInterval : c.fastInterval < UInt64.size
  interval : c.interval < UInt64.size
  retryBackoff : c.retryBackoff < UInt64.size

theorem ReportSettings.readsBack {c : ReportSettings} (h : c.In64) :
    Json.ReadsBack decoder toJson 2 c where
  writable := ⟨Json.fits64_of_lt h.fastInterval, Json.fits64_of_lt h.interval,
    Json.fits64_of_lt h.retryBackoff, trivial⟩
  reads scope hs := by
    obtain ⟨inner, hi, -⟩ := Json.enter?_of_lt hs Nat.one_pos
    have hfast := Json.natural_integer h.fastInterval inner
    have hinterval := Json.natural_integer h.interval inner
    have hbackoff := Json.natural_integer h.retryBackoff inner
    simp [decoder, toJson, Json.fields?, hi, Json.fieldOr, hfast, hinterval, hbackoff]

/-- The numbers of the settings have 64 bits. -/
structure QuerySettings.In64 (c : QuerySettings) : Prop where
  flushThreshold : c.flushThreshold < UInt64.size
  pipeCapacity : c.pipeCapacity < UInt64.size
  maxMessageSize : c.maxMessageSize < UInt64.size
  heartbeat : c.heartbeat.In64

/-- What a query gets that settles nothing. -/
theorem QuerySettings.in64_default (queryId : Identifier) : In64 { queryId } where
  flushThreshold := by simp [UInt64.size]
  pipeCapacity := by simp [UInt64.size]
  maxMessageSize := by simp [UInt64.size]
  heartbeat := by constructor <;> simp [UInt64.size]

/-- Somebody to report to, or nobody. -/
theorem QuerySettings.coordinator_readsBack (coordinator : Option String) (depth : Nat) :
    Json.ReadsBack (Json.optional Json.text) (fun c => (c.map Json.string).getD .null) depth
      coordinator := by
  cases coordinator with
  | none => exact ⟨trivial, fun _ _ => rfl⟩
  | some address => exact ⟨trivial, fun _ _ => rfl⟩

theorem QuerySettings.readsBack {c : QuerySettings} (h : c.In64) (fresh : Identifier) :
    Json.ReadsBack (decoder fresh) toJson 3 c := by
  have hcoordinator := QuerySettings.coordinator_readsBack c.coordinator
  have hheartbeat := ReportSettings.readsBack h.heartbeat
  refine ⟨⟨trivial, Json.fits64_of_lt h.flushThreshold, Json.fits64_of_lt h.pipeCapacity,
    Json.fits64_of_lt h.maxMessageSize, (hcoordinator 0).writable, hheartbeat.writable, trivial⟩,
    fun scope hs => ?_⟩
  obtain ⟨inner, hi, hd⟩ := Json.enter?_of_lt hs (by decide)
  have hid := (c.queryId.readsBack 2).reads inner hd
  have hthreshold := Json.natural_integer h.flushThreshold inner
  have hcapacity := Json.natural_integer h.pipeCapacity inner
  have hsize := Json.natural_integer h.maxMessageSize inner
  have hcoordinator := (hcoordinator 2).reads inner hd
  have hheartbeat := hheartbeat.reads inner hd
  simp [decoder, toJson, Json.fields?, hi, Json.fieldOr, hid, hthreshold, hcapacity, hsize,
    hcoordinator, hheartbeat]

/-! ### Answers -/

/-- The numbers of an answer have 64 bits. -/
def ControlResponse.In64 : ControlResponse → Prop
  | location l => l.In64
  | ok | error _ => True

theorem ControlResponse.readsBack {response : ControlResponse} (h : response.In64) :
    Json.ReadsBack decoder toJson 3 response := by
  cases response with
  | ok => exact ⟨trivial, fun _ _ => rfl⟩
  | location l =>
    have hl := Location.readsBack h
    refine ⟨⟨hl.writable, trivial⟩, fun scope hs => ?_⟩
    obtain ⟨inner, hi, hd⟩ := Json.enter?_of_lt hs (by decide)
    have hl := hl.reads inner hd
    simp [decoder, toJson, Json.variant?, hi, hl]
  | error message =>
    refine ⟨⟨trivial, trivial⟩, fun scope hs => ?_⟩
    obtain ⟨inner, hi, hd⟩ := Json.enter?_of_lt hs (by decide)
    simp [decoder, toJson, Json.variant?, hi, Json.text]

end StagedQuery

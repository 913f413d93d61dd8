import StagedQuery.Proofs.Codec.Jobs
import StagedQuery.Proofs.Wire.Sizes

/-!
# Messages travel

What is written as JSON onto a transport that takes everything comes out at the other end: the
reader gets an equal value, and what follows is left to it. That needs nothing of the texts, the
identifiers and the nesting of a message (`Json.messages_travel`). Its numbers must have the 64 bits
of the fields that they come from, the values that come with a job must not be floating-point
numbers, and the message must be no longer than the reader accepts.
-/

namespace StagedQuery

namespace Json

variable {α : Type} {decoder : Decoder α} {write : α → Json} {a : α}

/-- What the writer puts onto its transport for `a`, the reader makes `a` of again, whatever comes
behind it. -/
def Arrives (decoder : Decoder α) (write : α → Json) (a : α) (w : FrameWriter) (r : FrameReader) :
    Prop :=
  ∃ sent, FrameWriter.writeJson (write a) w = (.ok (), { w with sink := w.sink.took sent }) ∧
    ∀ rest, FrameReader.readJson decoder (r.facing (sent ++ rest)) =
      (.ok (some a), r.facing rest)

/-- Written as JSON, `a` arrives at every reader that accepts messages of this length. -/
def Travels (decoder : Decoder α) (write : α → Json) (a : α) : Prop :=
  ∀ (w : FrameWriter) (r : FrameReader), w.finished = false → w.sink.NeverFails →
    r.finished = false → Passes r.maxMessage (write a).bytes → Arrives decoder write a w r

/-- Whatever comes back from its text comes back from its frame. -/
theorem travels_of_decodeBytes (h : decodeBytes decoder (write a).bytes = some a) :
    Travels decoder write a := by
  intro w r hw hsink hr hpasses
  refine ⟨frameBytes (write a).bytes, FrameWriter.writeMessage_eq hw hsink hpasses.framed,
    fun rest => ?_⟩
  rw [FrameReader.readJson, Action.bind_ok (FrameReader.readMessage_message hr hpasses rest)]
  simp only [h]
  rfl

theorem ReadsBack.travels {depth : Nat} (h : ReadsBack decoder write depth a)
    (hdepth : depth ≤ maxDepth) : Travels decoder write a :=
  travels_of_decodeBytes (h.decodeBytes hdepth)

/-- Schemas, reports, answers and requests are read as what was written. -/
theorem messages_travel :
    (∀ schema : Schema, Travels Schema.decoder Schema.toJson schema) ∧
    (∀ h : Heartbeat, h.In64 → Travels Heartbeat.decoder Heartbeat.toJson h) ∧
    (∀ response : ControlResponse, response.In64 →
      Travels ControlResponse.decoder ControlResponse.toJson response) ∧
    ∀ (request : ControlRequest) (fresh : Identifier), request.In64 → request.FloatFree →
      Travels (ControlRequest.decoder fresh) ControlRequest.toJson request := by
  refine ⟨fun schema => ?_, fun h hh => ?_, fun response hresponse => ?_,
    fun request fresh hrequest hfree => ?_⟩
  · exact schema.readsBack.travels (by decide)
  · exact (Heartbeat.readsBack hh).travels (by decide)
  · exact (ControlResponse.readsBack hresponse).travels (by decide)
  · exact (ControlRequest.readsBack hrequest hfree fresh).travels (by decide)

/-- An output whose index is as large as can be, with names that have to be escaped. -/
def farOutput : Location :=
  { name := "w\"0\\", host := "é", controlPort := 0xffff, dataPort := 0
    channel := 0xffffffffffffffff }

/-- A request that hands out the scan of a partition with the smallest number of 64 bits. -/
def farRequest : ControlRequest :=
  .accept
    { taskId := ⟨0xffffffffffffffffffffffffffffffff⟩, location := farOutput
      kind := .scan "\n\u0001𝄞" [⟨[.int64 (-0x8000000000000000), .utf8 "\t", .null], [""]⟩] []
      inputs := [], outputs := [farOutput], schema := { fields := [⟨"n", .int64, true⟩] }
      payload := [0, 255] }
    { queryId := default, flushThreshold := 0xffffffffffffffff, coordinator := some "" }

theorem messages_travel_far :
    let schema : Schema := { fields := [⟨"\"\\\u0000é", .utf8, true⟩] }
    let report : Heartbeat :=
      { location := farOutput, status := .error, taskId := default
        logs := [⟨0xffffffffffffffff, .error, "\u001f\n"⟩] }
    let w : FrameWriter := {}
    let r : FrameReader := { rest := [] }
    Arrives Schema.decoder Schema.toJson schema w r ∧
    Arrives Heartbeat.decoder Heartbeat.toJson report w r ∧
    Arrives ControlResponse.decoder ControlResponse.toJson (.location farOutput) w r ∧
    Arrives (ControlRequest.decoder default) ControlRequest.toJson farRequest w r := by
  intro schema report w r
  obtain ⟨hschemas, hreports, hresponses, hrequests⟩ := messages_travel
  have hnever : w.sink.NeverFails := fun _ _ => rfl
  have hshort {json : Json} (h : (encoded json.chars).length ≤ 1000) :
      Passes r.maxMessage json.bytes := by
    rw [← bytes_eq] at h
    exact .of_short (Nat.le_trans (Nat.add_le_add_right (Nat.mul_le_mul_left 2 h) 5) (by decide))
      (by omega)
  have hfar : farOutput.In64 := by decide
  have hresponse : (ControlResponse.location farOutput).In64 := hfar
  have hrequest : farRequest.In64 :=
    ⟨⟨hfar, trivial, nofun, List.forall_mem_singleton.mpr hfar⟩,
      ⟨by decide, by decide, by decide, ⟨by decide, by decide, by decide⟩⟩⟩
  have hfree : farRequest.FloatFree := by
    rintro p hp v hv
    obtain rfl := List.mem_singleton.mp hp
    revert v
    decide
  refine ⟨?_, ?_, ?_, ?_⟩
  · exact hschemas schema w r rfl hnever rfl (hshort (by decide +kernel))
  · exact hreports report ⟨hfar, by decide⟩ w r rfl hnever rfl (hshort (by decide +kernel))
  · exact hresponses _ hresponse w r rfl hnever rfl (hshort (by decide +kernel))
  · exact hrequests farRequest default hrequest hfree w r rfl hnever rfl
      (hshort (by decide +kernel))

end Json

end StagedQuery

import StagedQuery.Proofs.Action
import StagedQuery.Wire.Block.RoundTrip
import StagedQuery.Wire.Frame

/-!
# Frames are read back

Messages put onto a transport that takes everything are the messages that a reader gets,
one for one, and the marker is the end: `FrameWriter.writeMessage_eq` says what a write adds to
the transport, and `FrameReader.readFrame_message` and `FrameReader.readFrame_marker` what a
reader makes of it. A reader that is past the marker is not moved by anything.
-/

namespace StagedQuery

/-! ### What messages look like on the wire -/

/-- The frame of a message, or nothing if the message has no frame. -/
def frameBytes (message : Bytes) : Bytes := (frameOf message).toOption.getD []

/-- The frames of some messages, one after the other. -/
def framed (messages : List Bytes) : Bytes := messages.flatMap frameBytes

/-- A message that goes through to a reader which accepts at most `limit` bytes: it has a frame,
and neither what the frame holds nor the message itself is longer. -/
structure Passes (limit : Nat) (message : Bytes) : Prop where
  framed : frameOf message = .ok (frameBytes message)
  block_le : (frameBytes message).length ≤ 4 + limit
  message_le : message.length ≤ limit

theorem passes_iff {limit : Nat} {m : Bytes} :
    Passes limit m ↔ (frameOf m).toOption.any (·.length ≤ 4 + limit) ∧ m.length ≤ limit := by
  constructor
  · intro h
    refine ⟨?_, h.message_le⟩
    rw [h.framed]
    exact decide_eq_true h.block_le
  · rintro ⟨h, hm⟩
    cases hf : frameOf m with
    | error e =>
      rw [hf] at h
      exact Bool.noConfusion h
    | ok frame =>
      have hframe : frameBytes m = frame := by rw [frameBytes, hf]; rfl
      rw [hf] at h
      exact ⟨by rw [hf, hframe], by rw [hframe]; exact of_decide_eq_true h, hm⟩

instance (limit : Nat) (m : Bytes) : Decidable (Passes limit m) :=
  decidable_of_iff _ passes_iff.symm

@[simp] theorem framed_nil : framed [] = [] := rfl

@[simp] theorem framed_cons (m : Bytes) (ms : List Bytes) :
    framed (m :: ms) = frameBytes m ++ framed ms := rfl

@[simp] theorem framed_append (ms ns : List Bytes) : framed (ms ++ ns) = framed ms ++ framed ns :=
  List.flatMap_append

/-- The frame of a message that is not empty. -/
theorem frameOf_eq_ok {m frame : Bytes} (hm : m ≠ []) (h : frameOf m = .ok frame) :
    m.length ≤ Block.maxLength ∧ (Block.compress m).length < 0x80000000 ∧
      frame = Bytes.le32 (UInt32.ofNat (Block.compress m).length) ++ Block.compress m := by
  rw [frameOf, if_neg (by simpa using hm)] at h
  split at h
  · simp at h
  · rename_i hroom
    rw [Block.roomFor] at hroom
    dsimp only at h
    by_cases hlt : (Block.compress m).length < 0x80000000
    · rw [if_pos hlt] at h
      injection h with h
      exact ⟨by omega, hlt, h.symm⟩
    · rw [if_neg hlt] at h
      simp at h

/-! ### Writing -/

namespace Sink

/-- The transport takes every piece. -/
def NeverFails (sink : Sink) : Prop := ∀ offered size, sink.refuses offered size = none

/-- What a transport is after it took a piece. -/
def took (sink : Sink) (piece : Bytes) : Sink :=
  { sink with offered := sink.offered + 1, pieces := sink.pieces ++ [piece] }

theorem write_eq {sink : Sink} (h : sink.NeverFails) (piece : Bytes) :
    write piece sink = (.ok (), sink.took piece) := by
  rw [write, h]
  rfl

theorem NeverFails.took {sink : Sink} (h : sink.NeverFails) (piece : Bytes) :
    (sink.took piece).NeverFails := h

@[simp] theorem bytes_took (sink : Sink) (piece : Bytes) :
    (sink.took piece).bytes = sink.bytes ++ piece := by
  simp [bytes, Sink.took]

end Sink

namespace FrameWriter

theorem onSink_eq {w : FrameWriter} {x : Action Sink Unit} {sink : Sink}
    (h : x w.sink = (.ok (), sink)) : onSink x w = (.ok (), { w with sink }) :=
  Action.zoom_apply h

/-- A message that has a frame is written as it. -/
theorem writeMessage_eq {w : FrameWriter} {m frame : Bytes} (hf : w.finished = false)
    (hs : w.sink.NeverFails) (hm : frameOf m = .ok frame) :
    writeMessage m w = (.ok (), { w with sink := w.sink.took frame }) := by
  rw [writeMessage, Action.bind_ok (Action.get_apply w), if_neg (by simp [hf]), hm,
    Action.bind_ok (Action.ofExcept_ok frame w)]
  exact onSink_eq (Sink.write_eq hs frame)

/-- Ending an unfinished stream writes the marker. -/
theorem finish_eq {w : FrameWriter} (hf : w.finished = false) (hs : w.sink.NeverFails) :
    finish w = (.ok (), { sink := w.sink.took endMarker, finished := true }) := by
  rw [finish, Action.bind_ok (Action.get_apply w), hf, if_neg Bool.false_ne_true,
    Action.bind_ok (onSink_eq (Sink.write_eq hs endMarker))]
  rfl

/-- Closing an unfinished stream writes the marker. -/
theorem close_eq {w : FrameWriter} (hf : w.finished = false) (hs : w.sink.NeverFails) :
    ∃ sink, close w = (.ok (), { sink, finished := true }) ∧
      sink.bytes = w.sink.bytes ++ endMarker := by
  refine ⟨{ w.sink.took endMarker with shutdowns := w.sink.shutdowns + 1 }, ?_,
    Sink.bytes_took w.sink endMarker⟩
  rw [close, Action.bind_ok (finish_eq hf hs)]
  rfl

end FrameWriter

/-! ### Reading -/

namespace FrameReader

/-- The reader with other bytes before it. -/
def facing (r : FrameReader) (bytes : Bytes) : FrameReader := { r with rest := bytes }

variable {r : FrameReader}

@[simp] theorem maxMessage_facing (bytes : Bytes) :
    (r.facing bytes).maxMessage = r.maxMessage := rfl

@[simp] theorem finished_facing (bytes : Bytes) : (r.facing bytes).finished = r.finished := rfl

theorem take_append (front rest : Bytes) (cut : CutPoint) :
    take front.length cut (r.facing (front ++ rest)) = (.ok front, r.facing rest) := by
  simp only [take, facing, Bytes.split?_append]

theorem take_append_of_length {n : Nat} {front : Bytes} (h : front.length = n) (rest : Bytes)
    (cut : CutPoint) : take n cut (r.facing (front ++ rest)) = (.ok front, r.facing rest) := by
  rw [← h, take_append]

theorem headerLength_le32 {n : Nat} (h : n < 0x80000000) :
    headerLength (Bytes.le32 (UInt32.ofNat n)) = n := by
  have := Bytes.word32?_le32 (UInt32.ofNat n) []
  rw [List.append_nil] at this
  have hn : (UInt32.ofNat n).toInt32.toBitVec.toNat = n := Nat.mod_eq_of_lt (by omega)
  simp only [headerLength, this, Int32.toInt]
  rw [BitVec.toInt_eq_toNat_of_lt (by omega), hn]

theorem unpack_compress {limit : Nat} {m : Bytes} (hm : m.length ≤ Block.maxLength)
    (hl : m.length ≤ limit) : unpack limit (Block.compress m) = .ok m := by
  simp only [unpack, Block.contentLength?_compress hm, Block.decompress_compress hm,
    if_neg (Nat.not_lt.mpr hl)]

theorem length_compress_pos (m : Bytes) : 0 < (Block.compress m).length := by
  rw [Block.compress, Block.varint]
  split <;> simp

/-- A message is read from its frame, and what follows is left. -/
theorem readFrame_message {m : Bytes} (hf : r.finished = false) (hm : Passes r.maxMessage m)
    (rest : Bytes) :
    readFrame (r.facing (frameBytes m ++ rest)) = (.ok (.message m), r.facing rest) := by
  rw [readFrame, Action.bind_ok (Action.get_apply _), maxMessage_facing, finished_facing, hf,
    if_neg Bool.false_ne_true]
  by_cases hempty : m = []
  · subst hempty
    exact Action.bind_ok (take_append [0, 0, 0, 0] rest _)
  · obtain ⟨hlong, hlt, hframe⟩ := frameOf_eq_ok hempty hm.framed
    have hpos := length_compress_pos m
    have hle := hm.block_le
    rw [hframe, List.length_append, Bytes.length_le32] at hle
    have hlen := headerLength_le32 hlt
    rw [hframe, List.append_assoc,
      Action.bind_ok (take_append_of_length (Bytes.length_le32 _) _ _)]
    simp only [hlen]
    rw [if_neg (by omega), if_neg (by omega), if_neg (by omega),
      Int.toNat_natCast, if_neg (by omega), Action.bind_ok (take_append _ _ _),
      unpack_compress hlong hm.message_le]
    rfl

/-- The marker ends the stream. -/
theorem readFrame_marker (hf : r.finished = false) (rest : Bytes) :
    readFrame (r.facing (endMarker ++ rest)) =
      (.ok .done, { r.facing rest with finished := true }) := by
  rw [readFrame, Action.bind_ok (Action.get_apply _), finished_facing, hf,
    if_neg Bool.false_ne_true, Action.bind_ok (take_append_of_length (n := 4) rfl rest _)]
  rfl

/-- Behind the marker there is nothing to read, and nothing changes any more. -/
theorem readFrame_finished (hf : r.finished = true) : readFrame r = (.ok .done, r) := by
  rw [readFrame, Action.bind_ok (Action.get_apply _), if_pos hf]
  rfl

theorem readMessage_message {m : Bytes} (hf : r.finished = false) (hm : Passes r.maxMessage m)
    (rest : Bytes) :
    readMessage (r.facing (frameBytes m ++ rest)) = (.ok (some m), r.facing rest) :=
  Action.bind_ok (readFrame_message hf hm rest)

theorem readMessage_marker (hf : r.finished = false) (rest : Bytes) :
    readMessage (r.facing (endMarker ++ rest)) =
      (.ok none, { r.facing rest with finished := true }) :=
  Action.bind_ok (readFrame_marker hf rest)

theorem readMessage_finished (hf : r.finished = true) : readMessage r = (.ok none, r) :=
  Action.bind_ok (readFrame_finished hf)

end FrameReader

end StagedQuery

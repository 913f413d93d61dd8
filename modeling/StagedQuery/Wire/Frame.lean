import StagedQuery.Action
import StagedQuery.Json.Decode
import StagedQuery.Wire.Block

/-!
# Frames

Messages travel in frames. A frame is a signed 32-bit length and that many bytes of
compressed message; the length zero stands for the empty message. The most negative
length is the end-of-stream marker. A stream that stops before the marker was cut, and
is never taken for a stream that ended.

A writer puts every frame, and the marker, onto its transport in one piece. A reader
bounds the frames and the messages that it accepts, and after an error goes on from where
it stopped.
-/

namespace StagedQuery

/-! ### Transports -/

/-- Where a writer writes. The transport takes a piece as a whole or not at all. -/
structure Sink where
  /-- Why the transport does not take a piece, if it does not; asked with the number of
  pieces offered before and the number of bytes it would then hold. -/
  refuses : Nat → Nat → Option Error := fun _ _ => none
  /-- The number of pieces offered so far. -/
  offered : Nat := 0
  /-- The pieces taken, in order. -/
  pieces : List Bytes := []
  /-- How often the transport was shut down. -/
  shutdowns : Nat := 0

namespace Sink

/-- The bytes taken. -/
def bytes (sink : Sink) : Bytes := sink.pieces.flatten

/-- The number of bytes taken. -/
def size (sink : Sink) : Nat := sink.pieces.foldr (fun piece n => piece.length + n) 0

/-- Offer a piece. -/
def write (piece : Bytes) : Action Sink Unit := fun sink =>
  let offered := sink.offered + 1
  match sink.refuses sink.offered (sink.size + piece.length) with
  | some e => (.error e, { sink with offered })
  | none => (.ok (), { sink with offered, pieces := sink.pieces ++ [piece] })

/-- Hand on what the transport holds back, which is nothing: what it has taken is written. -/
def flush : Action Sink Unit := pure ()

/-- Shut the transport down. -/
def shutdown : Action Sink Unit := .modify fun sink => { sink with shutdowns := sink.shutdowns + 1 }

end Sink

/-! ### Writing -/

/-- The end-of-stream marker. -/
def endMarker : Bytes := [0, 0, 0, 0x80]

/-- The frame of a message. -/
def frameOf (message : Bytes) : Except Error Bytes :=
  if message.isEmpty then .ok [0, 0, 0, 0]
  else if Block.maxLength < Block.roomFor message.length then .error .compression
  else
    let block := Block.compress message
    if block.length < 0x80000000 then .ok (Bytes.le32 (UInt32.ofNat block.length) ++ block)
    else .error (.malformedFrame (.uncountable block.length))

/-- A writer of frames. -/
structure FrameWriter where
  sink : Sink := {}
  /-- Nothing more may be written: the marker was, or the stream was given up. -/
  finished : Bool := false

namespace FrameWriter

/-- Act on the transport. -/
def onSink (x : Action Sink Unit) : Action FrameWriter Unit :=
  x.zoom (·.sink) fun w sink => { w with sink }

/-- Write one message. -/
def writeMessage (message : Bytes) : Action FrameWriter Unit := do
  if (← .get).finished then .fail .streamFinished
  else
    let frame ← .ofExcept (frameOf message)
    onSink (Sink.write frame)

/-- Write a value as JSON in one message. -/
def writeJson (json : Json) : Action FrameWriter Unit := writeMessage json.bytes

/-- Hand on what the transport holds back. -/
def flush : Action FrameWriter Unit := onSink Sink.flush

/-- Write the end-of-stream marker, unless the stream is finished. -/
def finish : Action FrameWriter Unit := do
  if (← .get).finished then pure ()
  else
    onSink (Sink.write endMarker)
    .modify fun w => { w with finished := true }

/-- Finish, and shut the transport down. -/
def close : Action FrameWriter Unit := do
  finish
  onSink Sink.shutdown

/-- Shut the transport down without the marker: whoever reads sees a stream that was cut. -/
def abort : Action FrameWriter Unit := do
  .modify fun w => { w with finished := true }
  onSink Sink.shutdown

end FrameWriter

/-! ### Reading -/

/-- What a reader gets. -/
inductive Frame
  | message (bytes : Bytes)
  | done
  deriving DecidableEq, Repr

/-- The longest message that a reader accepts unless told otherwise. -/
def defaultMaxMessage : Nat := 64 * 1024 * 1024

/-- A reader of frames. -/
structure FrameReader where
  /-- The bytes that the transport still holds. -/
  rest : Bytes
  /-- Whether the other side has shut the transport down, so that nothing follows. -/
  closed : Bool := true
  maxMessage : Nat := defaultMaxMessage
  /-- The marker was read. -/
  finished : Bool := false

namespace FrameReader

/-- Take exactly `n` bytes. When the transport ends before, what there was is gone. -/
def take (n : Nat) (cut : CutPoint) : Action FrameReader Bytes := fun r =>
  match Bytes.split? n r.rest with
  | some (bytes, rest) => (.ok bytes, { r with rest })
  | none =>
    if r.closed then (.error (.truncated cut), { r with rest := [] })
    else (.error .wouldBlock, r)

/-- The length that a header announces. -/
def headerLength (header : Bytes) : Int :=
  match Bytes.word32? header with
  | some (w, _) => w.toInt32.toInt
  | none => 0

/-- The message of a block, if it is not too long. -/
def unpack (maxMessage : Nat) (block : Bytes) : Except Error Bytes :=
  match Block.contentLength? block with
  | none => .error .compression
  | some length =>
    if maxMessage < length then .error (.malformedFrame (.messageTooLarge length maxMessage))
    else match Block.decompress block with
      | none => .error .compression
      | some message => .ok message

/-- Read the next frame. Behind the marker nothing is read any more. -/
def readFrame : Action FrameReader Frame := do
  let r ← .get
  if r.finished then pure .done
  else
    let length := headerLength (← take 4 .beforeEnd)
    if length = -0x80000000 then
      .modify fun r => { r with finished := true }
      pure .done
    else if length < 0 then .fail (.malformedFrame (.negativeLength length))
    else if length = 0 then pure (.message [])
    else if r.maxMessage < length.toNat then
      .fail (.malformedFrame (.frameTooLarge length.toNat r.maxMessage))
    else
      let block ← take length.toNat .insideFrame
      return .message (← .ofExcept (unpack r.maxMessage block))

/-- Read the next message; there is none behind the marker. -/
def readMessage : Action FrameReader (Option Bytes) := do
  match ← readFrame with
  | .message bytes => pure (some bytes)
  | .done => pure none

/-- Read the next message as JSON of some type. -/
def readJson {α : Type} (decoder : Json.Decoder α) : Action FrameReader (Option α) := do
  match ← readMessage with
  | none => pure none
  | some bytes =>
    match Json.decodeBytes decoder bytes with
    | some a => pure (some a)
    | none => .fail .serialization

end FrameReader

end StagedQuery

import StagedQuery.Proofs.Wire.Frame

/-!
# Transports that refuse

A transport may refuse a piece at any time, and take the next one. A refused piece leaves the
pieces that were taken as they are, so a message is on the transport as a whole frame or not at
all (`FrameWriter.writeMessage_cases`), and so is the marker: a `close` that succeeds has put it
there (`FrameWriter.close_eq_ok`).
-/

namespace StagedQuery

namespace Sink

/-- A piece is taken, or nothing changes but the number of pieces offered. -/
theorem write_cases (piece : Bytes) (sink : Sink) :
    write piece sink = (.ok (), sink.took piece) ∨
      ∃ e, write piece sink = (.error e, { sink with offered := sink.offered + 1 }) := by
  cases h : sink.refuses sink.offered (sink.size + piece.length) with
  | none =>
    left
    rw [write, h]
    rfl
  | some e =>
    right
    exact ⟨e, by rw [write, h]⟩

end Sink

namespace FrameWriter

variable {w w' : FrameWriter}

/-- A message is written as its frame, or the stream stays as it is. -/
theorem writeMessage_cases (m : Bytes) (w : FrameWriter) :
    (frameOf m = .ok (frameBytes m) ∧
      writeMessage m w = (.ok (), { w with sink := w.sink.took (frameBytes m) })) ∨
    ∃ e offered, writeMessage m w = (.error e, { w with sink := { w.sink with offered } }) := by
  by_cases hf : w.finished = true
  · right
    refine ⟨.streamFinished, w.sink.offered, ?_⟩
    rw [writeMessage, Action.bind_ok (Action.get_apply w), if_pos hf]
    rfl
  cases hframe : frameOf m with
  | error e =>
    right
    refine ⟨e, w.sink.offered, ?_⟩
    rw [writeMessage, Action.bind_ok (Action.get_apply w), if_neg hf, hframe]
    rfl
  | ok frame =>
    obtain rfl : frameBytes m = frame := by
      rw [frameBytes, hframe]
      rfl
    have hwrite : writeMessage m w = onSink (Sink.write (frameBytes m)) w := by
      rw [writeMessage, Action.bind_ok (Action.get_apply w), if_neg hf, hframe]
      exact Action.bind_ok (Action.ofExcept_ok _ w)
    rw [hwrite]
    obtain htaken | ⟨e, hrefused⟩ := Sink.write_cases (frameBytes m) w.sink
    · exact .inl ⟨rfl, onSink_eq htaken⟩
    · exact .inr ⟨e, _, Action.zoom_apply hrefused⟩

/-- Whether the stream is finished. -/
def FinishedAlike (w w' : FrameWriter) : Prop := w'.finished = w.finished

instance : IsPreorder FrameWriter FinishedAlike where
  refl := fun _ => rfl
  trans := fun _ _ _ h h' => Eq.trans h' h

theorem always_writeMessage (m : Bytes) : Action.Always FinishedAlike (writeMessage m) := by
  intro w
  obtain ⟨-, hwritten⟩ | ⟨e, offered, hrefused⟩ := writeMessage_cases m w
  · rw [hwritten]
    rfl
  · rw [hrefused]
    rfl

/-- A stream that could be closed ends in the marker. -/
theorem close_eq_ok (hf : w.finished = false) (h : close w = (.ok (), w')) :
    w'.finished = true ∧ w'.sink.bytes = w.sink.bytes ++ endMarker := by
  obtain ⟨⟨⟩, v, hfinish, hshutdown⟩ := Action.bind_eq_ok.mp h
  rw [finish, Action.bind_ok (Action.get_apply w), hf, if_neg Bool.false_ne_true] at hfinish
  obtain ⟨⟨⟩, u, hwrite, hmodify⟩ := Action.bind_eq_ok.mp hfinish
  cases hmodify
  obtain htaken | ⟨e, hrefused⟩ := Sink.write_cases endMarker w.sink
  · rw [onSink_eq htaken] at hwrite
    cases hwrite
    cases hshutdown
    exact ⟨rfl, Sink.bytes_took w.sink endMarker⟩
  · have herror : onSink (Sink.write endMarker) w = _ := Action.zoom_apply hrefused
    rw [herror] at hwrite
    cases hwrite

end FrameWriter

end StagedQuery

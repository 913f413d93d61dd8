import StagedQuery.Proofs.Wire.Refusal

/-!
# Streams of messages, whole and cut

A reader may be called as often as one likes, whatever it has answered before
(`FrameReader.readFrames`). Of the frames of some messages and the marker behind them it gets the
messages and then the end, over and over, and what follows the marker stays where it is
(`FrameReader.readFrames_whole`). Of a part of these bytes that was cut off anywhere it gets the
messages whose frames are whole, and then nothing but errors that say so
(`FrameReader.readFrames_cut`): a header that is not whole cannot be told from one that is missing,
a frame that is not whole lacks a part of its header or of its block, and the bytes of a cut frame
are gone once its reader has failed.

Together with what a writer puts onto its transport this says that a cut stream is never taken for
one that has ended: `FrameReader.readFrames_written`.
-/

namespace StagedQuery

/-! ### Many calls -/

namespace FrameReader

/-- What the next `n` calls answer, and the reader after them. An error does not keep anybody from
calling again. -/
def readFrames : Nat → FrameReader → List (Except Error Frame) × FrameReader
  | 0, r => ([], r)
  | n + 1, r =>
    let (answer, r) := readFrame r
    let (answers, r) := readFrames n r
    (answer :: answers, r)

variable {r r' : FrameReader}

theorem readFrames_succ {n : Nat} {answer : Except Error Frame} (h : readFrame r = (answer, r')) :
    readFrames (n + 1) r = (answer :: (readFrames n r').1, (readFrames n r').2) := by
  rw [readFrames, h]

/-- A reader that stays as it is gives the same answer every time. -/
theorem readFrames_stay {answer : Except Error Frame} (h : readFrame r = (answer, r)) (n : Nat) :
    readFrames n r = (List.replicate n answer, r) := by
  induction n with
  | zero => rfl
  | succ n ih => rw [readFrames_succ h, ih, List.replicate_succ]

/-! ### Whole streams -/

/-- Frames of messages are read one after the other; then the calls go on behind them. -/
theorem readFrames_framed {ms : List Bytes} (hf : r.finished = false)
    (hp : ∀ m ∈ ms, Passes r.maxMessage m) (n : Nat) (rest : Bytes) :
    readFrames (ms.length + n) (r.facing (framed ms ++ rest)) =
      (ms.map (fun m => .ok (.message m)) ++ (readFrames n (r.facing rest)).1,
        (readFrames n (r.facing rest)).2) := by
  induction ms with
  | nil =>
    rw [List.length_nil, Nat.zero_add]
    rfl
  | cons m ms ih =>
    obtain ⟨hm, hms⟩ := List.forall_mem_cons.mp hp
    rw [List.length_cons, Nat.add_right_comm, framed_cons, List.append_assoc,
      readFrames_succ (readFrame_message hf hm _), ih hms]
    rfl

/-- The messages, and then the end for good; what follows the marker is left. -/
theorem readFrames_whole {ms : List Bytes} (hf : r.finished = false)
    (hp : ∀ m ∈ ms, Passes r.maxMessage m) (later : Nat) (further : Bytes) :
    readFrames (ms.length + (1 + later)) (r.facing (framed ms ++ endMarker ++ further)) =
      (ms.map (fun m => .ok (.message m)) ++ List.replicate (1 + later) (.ok .done),
        { r.facing further with finished := true }) := by
  have hmarker := readFrame_marker hf further
  have hstay : readFrame { r.facing further with finished := true } = (.ok .done, _) :=
    readFrame_finished rfl
  rw [List.append_assoc, readFrames_framed hf hp, Nat.add_comm 1 later, readFrames_succ hmarker,
    readFrames_stay hstay, List.replicate_succ]

/-! ### Cut streams -/

/-- Bytes that are not there cannot be taken, and those that are there are gone. -/
theorem take_short {n : Nat} {rest : Bytes} (hclosed : r.closed = true) (h : rest.length < n)
    (cut : CutPoint) : take n cut (r.facing rest) = (.error (.truncated cut), r.facing []) := by
  rw [take, show (r.facing rest).rest = rest from rfl, Bytes.split?_eq_none h]
  exact if_pos hclosed

/-- A header that is not whole. -/
theorem readFrame_headless {rest : Bytes} (hclosed : r.closed = true) (hf : r.finished = false)
    (h : rest.length < 4) :
    readFrame (r.facing rest) = (.error (.truncated .beforeEnd), r.facing []) := by
  rw [readFrame, Action.bind_ok (Action.get_apply _), finished_facing, hf,
    if_neg Bool.false_ne_true]
  exact Action.bind_error (take_short hclosed h .beforeEnd)

/-- A frame that is not whole. -/
theorem readFrame_cut {m : Bytes} (hclosed : r.closed = true) (hf : r.finished = false)
    (hm : Passes r.maxMessage m) {n : Nat} (hn : n < (frameBytes m).length) :
    ∃ cut,
      readFrame (r.facing ((frameBytes m).take n)) = (.error (.truncated cut), r.facing []) := by
  by_cases hheader : n < 4
  · refine ⟨_, readFrame_headless hclosed hf ?_⟩
    rw [List.length_take]
    omega
  -- The header is whole, so the message is not the empty one, whose frame is nothing but a header.
  have hempty : m ≠ [] := by
    rintro rfl
    exact hheader hn
  obtain ⟨hlong, hlt, hframe⟩ := frameOf_eq_ok hempty hm.framed
  have hle := hm.block_le
  rw [hframe, List.length_append, Bytes.length_le32] at hn hle
  have hpos := length_compress_pos m
  have htake : (frameBytes m).take n =
      Bytes.le32 (UInt32.ofNat (Block.compress m).length) ++ (Block.compress m).take (n - 4) := by
    rw [hframe, List.take_append, Bytes.length_le32,
      List.take_of_length_le (by rw [Bytes.length_le32]; omega)]
  have hshort : ((Block.compress m).take (n - 4)).length < (Block.compress m).length := by
    rw [List.length_take]
    omega
  refine ⟨.insideFrame, ?_⟩
  rw [htake, readFrame, Action.bind_ok (Action.get_apply _), maxMessage_facing, finished_facing, hf,
    if_neg Bool.false_ne_true, Action.bind_ok (take_append_of_length (Bytes.length_le32 _) _ _)]
  simp only [headerLength_le32 hlt]
  rw [if_neg (by omega), if_neg (by omega), if_neg (by omega), Int.toNat_natCast,
    if_neg (by omega)]
  exact Action.bind_error (take_short hclosed hshort .insideFrame)

/-- A reader of nothing fails, and will always do so. -/
theorem readFrames_nothing (hclosed : r.closed = true) (hf : r.finished = false) (n : Nat) :
    readFrames n (r.facing []) =
      (List.replicate n (.error (.truncated .beforeEnd)), r.facing []) :=
  readFrames_stay (readFrame_headless hclosed hf (Nat.succ_pos 3)) n

/-- The messages whose frames are whole, and then errors for good. A frame that is in the bytes is
whole exactly if it is one of the first `whole`. -/
theorem readFrames_cut {ms : List Bytes} (hclosed : r.closed = true) (hf : r.finished = false)
    (hp : ∀ m ∈ ms, Passes r.maxMessage m) {n : Nat} (hn : n < (framed ms ++ endMarker).length) :
    ∃ whole ≤ ms.length,
      (∀ k ≤ ms.length, (framed (ms.take k)).length ≤ n ↔ k ≤ whole) ∧
      ∃ cut, ∀ later,
        readFrames (whole + (1 + later)) (r.facing ((framed ms ++ endMarker).take n)) =
          ((ms.take whole).map (fun m => .ok (.message m)) ++
              .error (.truncated cut) ::
                List.replicate later (.error (.truncated .beforeEnd)),
            r.facing []) := by
  induction ms generalizing n with
  | nil =>
    refine ⟨0, Nat.le_refl 0, ?_, .beforeEnd, fun later => ?_⟩
    · intro k hk
      obtain rfl := Nat.le_zero.mp hk
      simp
    · have hshort : (endMarker.take n).length < 4 := Nat.lt_of_le_of_lt (List.length_take_le ..) hn
      rw [Nat.zero_add, Nat.add_comm 1 later, framed_nil, List.nil_append,
        readFrames_succ (readFrame_headless hclosed hf hshort), readFrames_nothing hclosed hf]
      rfl
  | cons m ms ih =>
    obtain ⟨hm, hms⟩ := List.forall_mem_cons.mp hp
    by_cases hfirst : n < (frameBytes m).length
    · obtain ⟨cut, hcut⟩ := readFrame_cut hclosed hf hm hfirst
      refine ⟨0, Nat.zero_le _, ?_, cut, fun later => ?_⟩
      · intro k _
        cases k with
        | zero => simp
        | succ k =>
          rw [List.take_succ_cons, framed_cons, List.length_append]
          omega
      · rw [framed_cons, List.append_assoc, List.take_append_of_le_length (Nat.le_of_lt hfirst),
          Nat.zero_add, Nat.add_comm 1 later, readFrames_succ hcut, readFrames_nothing hclosed hf]
        rfl
    · obtain ⟨behind, rfl⟩ := Nat.exists_eq_add_of_le (Nat.le_of_not_lt hfirst)
      rw [framed_cons, List.append_assoc, List.length_append, Nat.add_lt_add_iff_left] at hn
      obtain ⟨whole, hle, hwhole, cut, hread⟩ := ih hms hn
      refine ⟨whole + 1, Nat.succ_le_succ hle, ?_, cut, fun later => ?_⟩
      · intro k hk
        cases k with
        | zero => simp
        | succ k =>
          rw [List.take_succ_cons, framed_cons, List.length_append, Nat.add_le_add_iff_left,
            hwhole k (Nat.le_of_succ_le_succ hk), Nat.add_le_add_iff_right]
      · rw [framed_cons, List.append_assoc, List.take_length_add_append, Nat.add_right_comm,
          readFrames_succ (readFrame_message hf hm _), hread later]
        rfl

end FrameReader

/-! ### What a writer puts onto its transport -/

namespace FrameWriter

/-- Write some messages, and end the stream. -/
def writeStream (messages : List Bytes) : Action FrameWriter Unit := do
  Action.each writeMessage messages
  finish

variable {w w' : FrameWriter} {ms : List Bytes}

/-- Messages are written, one frame after the other, if they all have a frame. -/
theorem writeStream_eq (hf : w.finished = false) (hs : w.sink.NeverFails)
    (hm : ∀ m ∈ ms, frameOf m = .ok (frameBytes m)) :
    ∃ w', writeStream ms w = (.ok (), w') ∧
      w'.sink.bytes = w.sink.bytes ++ (framed ms ++ endMarker) := by
  induction ms generalizing w with
  | nil =>
    refine ⟨_, (Action.bind_ok (Action.pure_apply () w)).trans (finish_eq hf hs), ?_⟩
    rw [Sink.bytes_took]
    rfl
  | cons m ms ih =>
    obtain ⟨hfirst, hrest⟩ := List.forall_mem_cons.mp hm
    have hwrite := writeMessage_eq hf hs hfirst
    obtain ⟨w', hlater, hbytes⟩ :=
      ih (w := { w with sink := w.sink.took (frameBytes m) }) hf (hs.took _) hrest
    refine ⟨w', ?_, ?_⟩
    · rw [writeStream, Action.each_cons, bind_assoc, Action.bind_ok hwrite]
      exact hlater
    · rw [hbytes, Sink.bytes_took, framed_cons, List.append_assoc, List.append_assoc]

/-- Only messages that have a frame are written. -/
theorem frames_of_writeStream (h : writeStream ms w = (.ok (), w')) :
    ∀ m ∈ ms, frameOf m = .ok (frameBytes m) := by
  induction ms generalizing w with
  | nil => exact fun m hm => absurd hm List.not_mem_nil
  | cons m ms ih =>
    rw [writeStream, Action.each_cons, bind_assoc] at h
    obtain ⟨⟨⟩, v, hwrite, hlater⟩ := Action.bind_eq_ok.mp h
    obtain ⟨hframe, -⟩ | ⟨e, offered, herror⟩ := writeMessage_cases m w
    · exact List.forall_mem_cons.mpr ⟨hframe, ih hlater⟩
    · rw [herror] at hwrite
      cases hwrite

end FrameWriter

/-- A message has a frame if its length and that of its block can be counted. -/
theorem frameOf_of_le {limit : Nat} {m : Bytes} (hlimit : limit < 0x80000000)
    (hm : m.length ≤ limit) (hblock : m ≠ [] → (Block.compress m).length ≤ limit) :
    frameOf m = .ok (frameBytes m) := by
  obtain ⟨frame, hframe⟩ : ∃ frame, frameOf m = .ok frame := by
    by_cases hempty : m = []
    · subst hempty
      exact ⟨_, rfl⟩
    · have hblock := hblock hempty
      have hroom : ¬Block.maxLength < Block.roomFor m.length := by
        rw [Block.maxLength, Block.roomFor]
        omega
      rw [frameOf, if_neg (by simpa using hempty), if_neg hroom]
      exact ⟨_, if_pos (by omega)⟩
  rw [frameBytes, hframe]
  rfl

/-- A message passes if it has a frame and neither it nor its block is too long. -/
theorem Passes.of_le {limit : Nat} {m : Bytes} (hframe : frameOf m = .ok (frameBytes m))
    (hm : m.length ≤ limit) (hblock : m ≠ [] → (Block.compress m).length ≤ limit) :
    Passes limit m where
  framed := hframe
  message_le := hm
  block_le := by
    by_cases hempty : m = []
    · subst hempty
      exact Nat.le_add_right 4 limit
    · have hblock := hblock hempty
      obtain ⟨-, -, hbytes⟩ := frameOf_eq_ok hempty hframe
      rw [hbytes, List.length_append, Bytes.length_le32]
      omega

/-- Messages of which neither the bytes nor the compressed form is longer than a reader accepts
are written, if the limit can be counted at all, and when they are, then the stream reads as them
and the end, whatever follows, and each part of it reads as the messages whose frames are whole,
and errors that say that the stream was cut. -/
theorem FrameReader.readFrames_written {sink : Sink} (hsink : sink.NeverFails) {ms : List Bytes}
    {limit : Nat}
    (hsizes : ∀ m ∈ ms, m.length ≤ limit ∧ (m ≠ [] → (Block.compress m).length ≤ limit)) :
    ∃ result w, FrameWriter.writeStream ms { sink } = (result, w) ∧
      (limit < 0x80000000 → result = .ok ()) ∧
      (result = .ok () →
        let stream := framed ms ++ endMarker
        w.sink.bytes = sink.bytes ++ stream ∧
        (∀ closed further later,
          readFrames (ms.length + (1 + later))
              { rest := stream ++ further, closed, maxMessage := limit } =
            (ms.map (fun m => .ok (.message m)) ++ List.replicate (1 + later) (.ok .done),
              { rest := further, closed, maxMessage := limit, finished := true })) ∧
        ∀ n < stream.length, ∃ whole ≤ ms.length,
          (∀ k ≤ ms.length, (framed (ms.take k)).length ≤ n ↔ k ≤ whole) ∧
          ∃ cut, ∀ later,
            (readFrames (whole + (1 + later)) { rest := stream.take n, maxMessage := limit }).1 =
              (ms.take whole).map (fun m => .ok (.message m)) ++
                .error (.truncated cut) ::
                  List.replicate later (.error (.truncated .beforeEnd))) := by
  rcases hrun : FrameWriter.writeStream ms { sink } with ⟨result, w⟩
  refine ⟨result, w, rfl, fun hlimit => ?_, ?_⟩
  · have hframes : ∀ m ∈ ms, frameOf m = .ok (frameBytes m) :=
      fun m hm => frameOf_of_le hlimit (hsizes m hm).1 (hsizes m hm).2
    obtain ⟨w', hwritten, -⟩ := FrameWriter.writeStream_eq (w := { sink }) rfl hsink hframes
    rw [hrun] at hwritten
    cases hwritten
    rfl
  · rintro rfl
    have hframes := FrameWriter.frames_of_writeStream hrun
    have hpasses : ∀ m ∈ ms, Passes limit m :=
      fun m hm => .of_le (hframes m hm) (hsizes m hm).1 (hsizes m hm).2
    obtain ⟨w', hwritten, hbytes⟩ := FrameWriter.writeStream_eq (w := { sink }) rfl hsink hframes
    rw [hrun] at hwritten
    cases hwritten
    refine ⟨hbytes, fun closed further later => ?_, fun n hn => ?_⟩
    · exact readFrames_whole (r := { rest := [], closed, maxMessage := limit }) rfl hpasses later
        further
    · obtain ⟨whole, hle, hwhole, cut, hread⟩ :=
        readFrames_cut (r := { rest := [], maxMessage := limit }) rfl rfl hpasses hn
      exact ⟨whole, hle, hwhole, cut, fun later => congrArg Prod.fst (hread later)⟩

/-- An empty message and one that looks like the marker, cut inside the frame of the second. -/
theorem FrameReader.readFrames_written_like_marker :
    ∃ w, FrameWriter.writeStream [[], endMarker] {} = (.ok (), w) ∧ 9 < w.sink.bytes.length ∧
      ∃ cut, ∀ later,
        (readFrames (1 + (1 + later)) { rest := w.sink.bytes.take 9, maxMessage := 6 }).1 =
          .ok (.message []) :: .error (.truncated cut) ::
            List.replicate later (.error (.truncated .beforeEnd)) := by
  obtain ⟨result, w, hrun, hcountable, hread⟩ :=
    @readFrames_written {} (fun _ _ => rfl) [[], endMarker] 6 (by decide +kernel)
  obtain rfl := hcountable (by decide)
  obtain ⟨hbytes, -, hcut⟩ := hread rfl
  have hlong : 9 < (framed [[], endMarker] ++ endMarker).length := by decide +kernel
  obtain ⟨whole, hle, hwhole, cut, hreads⟩ := hcut 9 hlong
  have hfirst : 1 ≤ whole := (hwhole 1 (by decide)).mp (by decide +kernel)
  have hsecond : ¬2 ≤ whole := fun h => absurd ((hwhole 2 (by decide)).mpr h) (by decide +kernel)
  obtain rfl : whole = 1 := by omega
  have hstream : w.sink.bytes = framed [[], endMarker] ++ endMarker := hbytes
  exact ⟨w, hrun, hstream ▸ hlong, cut, hstream ▸ hreads⟩

end StagedQuery

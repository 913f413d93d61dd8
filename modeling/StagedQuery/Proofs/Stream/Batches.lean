import StagedQuery.Proofs.Stream.Loss
import StagedQuery.Proofs.Wire.Marker

/-!
# The size of batches

A writer writes a batch as soon as as many rows wait as its threshold, and the readers of a query
take the same threshold for the largest batch that they accept. Does every batch keep to it,
whatever was done with the writer and whatever its transport has refused?

Once the schema is out, it does: a flush takes what waits out of the buffer before it offers the
first message. Before, it does not: when the announcement is refused, the row that asked for it is
late. Its call has failed, but it waits all the same, and more rows are appended behind it.
`RowWriter.announces_too_many` is a stream whose first batch has more rows than the threshold, and
whose reader refuses it.

Nothing else can go wrong (`RowWriter.batches_within`): only the first batch is ever larger than
the threshold, and by no more than the number of late rows. A reader that accepts as much never
refuses a batch for its size.
-/

namespace StagedQuery

open StagedQuery.Action

namespace RowWriter

/-! ### Uses of a writer -/

/-- What can be done with a writer. -/
inductive Use
  | call (call : Call)
  | close
  | abort

/-- The use as an action. -/
def Use.run : Use → Action RowWriter Unit
  | .call c => c.run
  | .close => RowWriter.close
  | .abort => RowWriter.abort

/-- The steps that are tried in a use, each with the writer that it finds. -/
def Use.tried : Use → RowWriter → List (RowWriter × Option Row)
  | .call c, w => RowWriter.tried c.steps w
  | .close, _ => []
  | .abort, _ => []

/-- The writer after some uses, where one that fails does not keep the next one away. -/
def after (uses : List Use) (w : RowWriter) : RowWriter := uses.foldl (fun w u => (u.run w).2) w

/-- The row of a step that has failed and waits all the same. -/
def stepLate (w : RowWriter) (s : Option Row) : Option Row :=
  match (runStep s w).1 with
  | .ok () => none
  | .error _ => if (runStep s w).2.buffered = w.buffered + 1 then s else none

/-- The late rows of some steps. -/
def lateOf (steps : List (RowWriter × Option Row)) : List Row :=
  steps.flatMap fun (w, s) => (w.stepLate s).toList

/-- The late rows of some uses. -/
def lateRows : List Use → RowWriter → List Row
  | [], _ => []
  | u :: uses, w => lateOf (u.tried w) ++ lateRows uses (u.run w).2

variable {schema : Schema} {threshold late late' : Nat} {start : Bytes} {w v : RowWriter}
  {b : Books} {attempts : List Attempt}

/-! ### What waits -/

theorem Records.buffered_eq (h : Records schema start w b) : w.buffered = b.pending.length := by
  rw [buffered, h.buffer_eq, RowGroup.rowCount_collected]

/-- When the announcement is refused, nothing but the transport has changed. -/
theorem unsent_of_sendSchema {e : Error} (hs : sendSchema w = (.error e, v)) :
    w.schemaSent = false ∧ v.schemaSent = false ∧ v.buffer = w.buffer := by
  rw [sendSchema, bind_ok (get_apply w)] at hs
  by_cases hsent : w.schemaSent = true
  · rw [if_pos hsent] at hs
    cases hs
  · rw [if_neg hsent] at hs
    obtain ⟨-, hwrite⟩ | ⟨e', offered, hwrite⟩ :=
      FrameWriter.writeMessage_cases w.schema.toJson.bytes w.frames
    · have hframes : onFrames (FrameWriter.writeJson w.schema.toJson) w = _ := onFrames_eq hwrite
      rw [bind_ok hframes] at hs
      cases hs
    · have hframes : onFrames (FrameWriter.writeJson w.schema.toJson) w = _ :=
        zoom_apply hwrite
      rw [bind_error hframes] at hs
      cases hs
      exact ⟨by simpa using hsent, by simpa using hsent, rfl⟩

/-- After a flush nothing waits, even if it has failed, unless the schema could not be announced:
then everything waits as before. -/
theorem flush_empties (w : RowWriter) :
    (flush w).2.buffered = 0 ∨
      (∃ e, (flush w).1 = .error e) ∧ w.schemaSent = false ∧ (flush w).2.schemaSent = false ∧
        (flush w).2.buffered = w.buffered := by
  have hcase := flush_flushed w
  generalize w.attempt = attempted at hcase
  generalize flush w = outcome at hcase
  cases hcase with
  | @unannounced e v hs =>
    obtain ⟨hw, hv, hbuffer⟩ := unsent_of_sendSchema hs
    exact .inr ⟨⟨e, rfl⟩, hw, hv, by rw [buffered, hbuffer, buffered]⟩
  | idle hs he => exact .inl (by simpa [RowGroup.isEmpty, buffered] using he)
  | batch hs he hn hp hf hr => exact .inl rfl

/-! ### Sizes -/

/-- The sizes of the batches that were tried: only the first may be larger than the threshold, and
by no more than the number of late rows. -/
structure Sized (threshold late : Nat) (attempts : List Attempt) : Prop where
  all_le : ∀ a ∈ attempts, a.rows.length ≤ threshold + late
  tail_le : ∀ a ∈ attempts.tail, a.rows.length ≤ threshold

theorem Sized.mono (h : Sized threshold late attempts) (hle : late ≤ late') :
    Sized threshold late' attempts where
  all_le := fun a ha => Nat.le_trans (h.all_le a ha) (Nat.add_le_add_left hle threshold)
  tail_le := h.tail_le

theorem Sized.concat (h : Sized threshold late attempts) {a : Attempt}
    (hfirst : a.rows.length ≤ threshold + late)
    (hlater : attempts ≠ [] → a.rows.length ≤ threshold) :
    Sized threshold late (attempts ++ [a]) where
  all_le := List.forall_mem_append.mpr ⟨h.all_le, List.forall_mem_singleton.mpr hfirst⟩
  tail_le := by
    cases attempts with
    | nil => exact fun _ ha => absurd ha List.not_mem_nil
    | cons first attempts =>
      exact List.forall_mem_append.mpr
        ⟨h.tail_le, List.forall_mem_singleton.mpr (hlater (List.cons_ne_nil first attempts))⟩

/-- By how much what waits may exceed the threshold. -/
def slack (w : RowWriter) (late : Nat) : Nat := if w.schemaSent then 0 else late

theorem slack_le (w : RowWriter) (late : Nat) : w.slack late ≤ late := by
  rw [slack]
  split
  · exact Nat.zero_le late
  · exact Nat.le_refl late

theorem slack_mono (w : RowWriter) (hle : late ≤ late') : w.slack late ≤ w.slack late' := by
  rw [slack, slack]
  split
  · exact Nat.le_refl 0
  · exact hle

/-- A writer whose stream is open keeps to its threshold but for its late rows. -/
structure Paced (schema : Schema) (threshold : Nat) (start : Bytes) (late : Nat) (w : RowWriter)
    (b : Books) : Prop where
  records : Records schema start w b
  threshold_eq : w.threshold = threshold
  threshold_pos : 0 < threshold
  sized : Sized threshold late b.attempts
  waiting : b.pending.length < threshold + w.slack late

theorem Paced.mono (h : Paced schema threshold start late w b) (hle : late ≤ late') :
    Paced schema threshold start late' w b :=
  { h with
    sized := h.sized.mono hle
    waiting := Nat.lt_of_lt_of_le h.waiting (Nat.add_le_add_left (w.slack_mono hle) threshold) }

/-- What a flush makes of rows that wait. -/
theorem flush_sized (h : Records schema start w b) (hsized : Sized threshold late b.attempts)
    (hfits : b.pending.length ≤ threshold + w.slack late) :
    ∃ b', Records schema start (flush w).2 b' ∧ Sized threshold late b'.attempts ∧
      ((flush w).1 = .ok () → (flush w).2.schemaSent = true) := by
  obtain ⟨pending, hrecords, hrows, hok⟩ := flush_records h
  refine ⟨_, hrecords, ?_, fun hflush => (hok hflush).1⟩
  cases hattempt : w.attempt with
  | none => simpa using hsized
  | some a =>
    have hle : a.rows.length ≤ b.pending.length := by simp [hrows, hattempt]
    have hslack := w.slack_le late
    refine hsized.concat (by omega) fun hne => ?_
    -- a later batch: the schema is out
    cases hsent : w.schemaSent with
    | false => exact absurd (h.unsent hsent).1 hne
    | true =>
      rw [slack, hsent, if_pos rfl] at hfits
      exact Nat.le_trans hle hfits

/-- A flush keeps up the pace. -/
theorem flush_paced (h : Paced schema threshold start late w b) :
    ∃ b', Paced schema threshold start late (flush w).2 b' ∧
      ((flush w).1 = .ok () → (flush w).2.schemaSent = true) := by
  obtain ⟨b', hrecords, hsized, hsent⟩ := flush_sized h.records h.sized (Nat.le_of_lt h.waiting)
  have hthreshold : (flush w).2.threshold = threshold :=
    (always_flush w).threshold.trans h.threshold_eq
  refine ⟨b', ⟨hrecords, hthreshold, h.threshold_pos, hsized, ?_⟩, hsent⟩
  rw [← hrecords.buffered_eq]
  obtain hzero | ⟨-, hw, hv, hsame⟩ := flush_empties w
  · rw [hzero]
    exact Nat.add_pos_left h.threshold_pos _
  · have hwaiting := h.waiting
    rw [hsame, h.records.buffered_eq]
    rwa [slack, hv, ← hw, ← slack]

/-- A step keeps up the pace: when it leaves too many rows waiting, its own is late. -/
theorem step_paced (h : Paced schema threshold start late w b) (s : Option Row) :
    ∃ b', Paced schema threshold start (late + (w.stepLate s).toList.length) (runStep s w).2
      b' := by
  have hle : late ≤ late + (w.stepLate s).toList.length := Nat.le_add_right _ _
  cases s with
  | none =>
    obtain ⟨b', hflush, -⟩ := flush_paced h
    exact ⟨b', hflush.mono hle⟩
  | some row =>
    obtain ⟨hvalid, hpush⟩ | ⟨fault, hpush⟩ := push_cases w.buffer w.schema row
    · rw [h.records.schema_eq] at hvalid
      have hv := h.records.push hvalid
      have hwaiting := h.waiting
      have hlength : (b.pending ++ [row]).length = b.pending.length + 1 := List.length_append
      have hstep : runStep (some row) w = _ := writeRow_pushed hpush
      by_cases hfull : w.threshold ≤ (w.buffer.append row).rowCount
      · rw [if_pos hfull] at hstep
        have hfits : (b.pending ++ [row]).length ≤ threshold + w.slack late := by omega
        obtain ⟨b', hrecords, hsized, -⟩ := flush_sized hv h.sized hfits
        have hthreshold :=
          (always_flush { w with buffer := w.buffer.append row }).threshold.trans h.threshold_eq
        have hempties := flush_empties { w with buffer := w.buffer.append row }
        rw [← hstep] at hrecords hthreshold hempties
        refine ⟨b', hrecords, hthreshold, h.threshold_pos, hsized.mono hle, ?_⟩
        rw [← hrecords.buffered_eq]
        obtain hzero | ⟨⟨e, herror⟩, hw, hsent, hsame⟩ := hempties
        · rw [hzero]
          exact Nat.add_pos_left h.threshold_pos _
        · -- the schema is not out: the row waits, and is late
          have hsame : (runStep (some row) w).2.buffered = w.buffered + 1 := hsame
          have hlate : w.stepLate (some row) = some row := by
            rw [stepLate, herror]
            exact if_pos hsame
          have hslack := w.slack_le late
          rw [hlate, hsame, slack, hsent, if_neg Bool.false_ne_true, h.records.buffered_eq]
          simp only [Option.toList_some, List.length_singleton]
          omega
      · rw [if_neg hfull] at hstep
        rw [hstep]
        refine ⟨_, hv, h.threshold_eq, h.threshold_pos, h.sized.mono hle, ?_⟩
        have hcount := hv.buffered_eq
        simp only [buffered] at hcount
        rw [hcount, h.threshold_eq] at hfull
        exact Nat.lt_of_lt_of_le (Nat.lt_of_not_le hfull) (Nat.le_add_right _ _)
    · have hstep : runStep (some row) w = _ := writeRow_refused hpush
      rw [hstep]
      exact ⟨b, h.mono hle⟩

/-- Many steps keep up the pace. -/
theorem tried_paced (h : Paced schema threshold start late w b) (steps : List (Option Row)) :
    ∃ b', Paced schema threshold start (late + (lateOf (tried steps w)).length)
      (Action.each runStep steps w).2 b' := by
  induction steps generalizing w b late with
  | nil => exact ⟨b, h⟩
  | cons s steps ih =>
    obtain ⟨b', hv⟩ := step_paced h s
    rw [each_cons]
    rcases hrun : runStep s w with ⟨e | ⟨⟩, w'⟩
    · rw [hrun] at hv
      rw [bind_error hrun, tried, hrun]
      exact ⟨b', by simpa [lateOf] using hv⟩
    · rw [hrun] at hv
      obtain ⟨b'', hu⟩ := ih hv
      rw [bind_ok hrun, tried, hrun]
      exact ⟨b'', by simpa [lateOf, Nat.add_assoc] using hu⟩

end RowWriter

/-! ### Streams that are finished -/

namespace FrameWriter

/-- A stream that is finished stays as it is. -/
def Frozen (w w' : FrameWriter) : Prop :=
  w.finished = true → w'.finished = true ∧ w'.sink.pieces = w.sink.pieces

theorem Call.frozen (c : Call) : Always Frozen c.run := by
  intro w hf
  have hdoes := c.does w
  generalize c.run w = outcome at hdoes
  cases hdoes with
  | written hm hopen hframe => exact absurd (hopen.symm.trans hf) Bool.noConfusion
  | refused hc => exact ⟨hf, rfl⟩
  | idle hm hc hends => exact ⟨hf, rfl⟩
  | marked hends hopen => exact absurd (hopen.symm.trans hf) Bool.noConfusion
  | abandoned => exact ⟨rfl, rfl⟩

end FrameWriter

namespace RowWriter

variable {schema : Schema} {threshold late late' : Nat} {start stream : Bytes} {w v : RowWriter}
  {b : Books} {attempts : List Attempt}

/-- A stream that is finished stays as it is. -/
def Frozen (w w' : RowWriter) : Prop := w.frames.Frozen w'.frames

instance : IsPreorder RowWriter Frozen where
  refl := fun _ hf => ⟨hf, rfl⟩
  trans := by
    intro u v w huv hvw hf
    obtain ⟨hv, hpieces⟩ := huv hf
    obtain ⟨hw, hpieces'⟩ := hvw hv
    exact ⟨hw, hpieces'.trans hpieces⟩

theorem frozen_onFrames {x : Action FrameWriter Unit} (hx : Always FrameWriter.Frozen x) :
    Always Frozen (onFrames x) := always_zoom hx fun _ _ h => h

theorem frozen_flush : Always Frozen flush := by
  refine .bind (.bind always_get fun w => ?_) fun _ => .bind always_get fun w => ?_
  · split
    · exact always_pure ()
    · exact .bind (frozen_onFrames (FrameWriter.Call.frozen (.json _))) fun _ =>
        always_modify fun _ hf => ⟨hf, rfl⟩
  · split
    · exact always_pure ()
    · refine .bind (always_modify fun _ hf => ⟨hf, rfl⟩) fun _ =>
        .bind (always_ofExcept _) fun ms => ?_
      refine .bind (always_each (fun m => ?_) ms) fun _ => always_modify fun _ hf => ⟨hf, rfl⟩
      exact frozen_onFrames (FrameWriter.Call.frozen (.message m))

theorem frozen_runStep (s : Option Row) : Always Frozen (runStep s) := by
  cases s with
  | none => exact frozen_flush
  | some row =>
    refine .bind always_get fun w => .bind (always_ofExcept _) fun buffer => ?_
    refine .bind (always_modify fun _ hf => ⟨hf, rfl⟩) fun _ => ?_
    split
    · exact frozen_flush
    · exact always_pure _

theorem Use.frozen (u : Use) : Always Frozen u.run := by
  cases u with
  | call c =>
    rw [run, ← each_steps]
    exact always_each frozen_runStep c.steps
  | close =>
    refine .bind always_get fun w => ?_
    split
    · exact always_pure ()
    · exact .bind frozen_flush fun _ => frozen_onFrames (FrameWriter.Call.frozen .close)
  | abort =>
    exact .bind (always_modify fun _ hf => ⟨hf, rfl⟩) fun _ =>
      frozen_onFrames (FrameWriter.Call.frozen .abort)

/-! ### What uses keep -/

/-- What a transport can hold: nothing, or the announcement and what went out of some batches, and
perhaps the marker. -/
inductive Carries (schema : Schema) : List Attempt → Bytes → Prop
  | nothing : Carries schema [] []
  | batches {attempts : List Attempt} {tail : Bytes}
    (announced : frameOf schema.toJson.bytes = .ok (frameBytes schema.toJson.bytes))
    (made : ∀ a ∈ attempts, a.Made schema) (htail : tail = [] ∨ tail = endMarker) :
    Carries schema attempts (framed (sentMessages schema attempts) ++ tail)

/-- A writer that keeps to its threshold but for its late rows, or whose stream is finished and
has kept to it. -/
inductive Kept (schema : Schema) (threshold : Nat) (start : Bytes) (late : Nat) (w : RowWriter) :
    Prop
  | going {b : Books} (h : Paced schema threshold start late w b)
  | finished {attempts : List Attempt} {stream : Bytes} (hf : w.frames.finished = true)
    (hbytes : w.frames.sink.bytes = start ++ stream) (hc : Carries schema attempts stream)
    (hs : Sized threshold late attempts)

theorem Records.carries (h : Records schema start w b) :
    ∃ stream, w.frames.sink.bytes = start ++ stream ∧ Carries schema b.attempts stream := by
  cases hsent : w.schemaSent with
  | false =>
    obtain ⟨hnone, hbytes⟩ := h.unsent hsent
    exact ⟨[], by rw [hbytes, List.append_nil], hnone ▸ .nothing⟩
  | true =>
    refine ⟨framed (sentMessages schema b.attempts) ++ [], ?_,
      .batches (h.announced hsent) h.made (.inl rfl)⟩
    rw [List.append_nil, h.sent hsent]

/-- Closing keeps up the pace, or ends the stream. -/
theorem close_kept (h : Paced schema threshold start late w b) :
    Kept schema threshold start late (close w).2 := by
  obtain ⟨b', hv, hsent⟩ := flush_paced h
  rw [close, bind_ok (get_apply w), h.records.unfinished, if_neg Bool.false_ne_true]
  rcases hflush : flush w with ⟨e | ⟨⟩, v⟩
  · rw [hflush] at hv
    rw [bind_error hflush]
    exact .going hv
  · rw [hflush] at hv hsent
    rw [bind_ok hflush]
    have hdoes := FrameWriter.Call.does .close v.frames
    rcases hframes : FrameWriter.close v.frames with ⟨result, frames⟩
    have hzoom : onFrames FrameWriter.close v = (result, { v with frames }) := zoom_apply hframes
    rw [FrameWriter.Call.run, hframes] at hdoes
    rw [hzoom]
    obtain ⟨hr, hthreshold, hpos, hsized, hwaiting⟩ := hv
    cases hdoes with
    | written hm hopen hframe => cases hm
    | refused hc =>
      exact .going ⟨⟨hr.schema_eq, hr.buffer_eq, hr.valid, hr.unfinished, hr.made, hr.unsent,
        hr.announced, hr.sent⟩, hthreshold, hpos, hsized, hwaiting⟩
    | idle hm hc hends => exact absurd ((hends rfl).symm.trans hr.unfinished) Bool.noConfusion
    | marked hends hopen =>
      refine .finished rfl ?_ (.batches (hr.announced (hsent rfl)) hr.made (.inr rfl)) hsized
      rw [← List.append_assoc, ← hr.sent (hsent rfl)]
      exact Sink.bytes_took v.frames.sink endMarker

/-- A use keeps up the pace, or finishes the stream, or finds it finished. -/
theorem use_kept (h : Kept schema threshold start late w) (u : Use) :
    Kept schema threshold start (late + (lateOf (u.tried w)).length) (u.run w).2 := by
  cases h with
  | going h =>
    cases u with
    | call c =>
      obtain ⟨b', hv⟩ := tried_paced h c.steps
      rw [each_steps] at hv
      exact .going hv
    | close => exact close_kept h
    | abort =>
      obtain ⟨stream, hbytes, hc⟩ := h.records.carries
      exact .finished rfl hbytes hc h.sized
  | finished hf hbytes hc hs =>
    obtain ⟨hfinished, hpieces⟩ := u.frozen w hf
    refine .finished hfinished ?_ hc (hs.mono (Nat.le_add_right _ _))
    rw [← hbytes, Sink.bytes, hpieces, Sink.bytes]

theorem after_kept (h : Kept schema threshold start late w) (uses : List Use) :
    Kept schema threshold start (late + (lateRows uses w).length) (after uses w) := by
  induction uses generalizing w late with
  | nil => exact h
  | cons u uses ih =>
    rw [lateRows, List.length_append, ← Nat.add_assoc]
    exact ih (use_kept h u)

end RowWriter

/-! ### What a reader refuses for its size -/

/-- The error of a reader that refuses a batch for its size. -/
def Error.TooLarge (e : Error) : Prop :=
  ∃ rows limit, e = .data (.decode (.batchTooLarge rows limit))

namespace Column

variable {α β : Type}

/-- Whatever `x` fails for, it is not the size of a batch. -/
def Sizeless (x : Except DecodeError α) : Prop :=
  ∀ rows limit, x ≠ .error (.batchTooLarge rows limit)

theorem Sizeless.bind {x : Except DecodeError α} {f : α → Except DecodeError β} (hx : Sizeless x)
    (hf : ∀ a, Sizeless (f a)) : Sizeless (x >>= f) := by
  intro rows limit h
  cases x with
  | ok a => exact hf a rows limit h
  | error fault =>
    cases h
    exact hx rows limit rfl

theorem sizeless_ok (a : α) : Sizeless (.ok a) := fun _ _ => nofun

theorem sizeless_take (n : Nat) (bytes : Bytes) : Sizeless (take n bytes) := by
  intro rows limit h
  rw [take] at h
  split at h <;> cases h

theorem sizeless_takeWord (bytes : Bytes) : Sizeless (takeWord bytes) := by
  intro rows limit h
  rw [takeWord] at h
  split at h <;> cases h

theorem sizeless_takeLong (bytes : Bytes) : Sizeless (takeLong bytes) := by
  intro rows limit h
  rw [takeLong] at h
  split at h <;> cases h

theorem sizeless_takeCount (what : String) (bytes : Bytes) : Sizeless (takeCount what bytes) := by
  refine .bind (sizeless_takeWord bytes) fun ⟨word, rest⟩ => ?_
  intro rows limit h
  dsimp only at h
  split at h <;> cases h

theorem sizeless_takeValue (t : DataType) (bytes : Bytes) : Sizeless (takeValue t bytes) := by
  cases t with
  | boolean => cases bytes <;> exact fun _ _ => nofun
  | int32 => exact .bind (sizeless_takeWord bytes) fun _ => sizeless_ok _
  | int64 => exact .bind (sizeless_takeLong bytes) fun _ => sizeless_ok _
  | float32 => exact .bind (sizeless_takeWord bytes) fun _ => sizeless_ok _
  | float64 => exact .bind (sizeless_takeLong bytes) fun _ => sizeless_ok _
  | utf8 =>
    refine .bind (sizeless_takeCount _ bytes) fun ⟨n, rest⟩ => ?_
    refine .bind (sizeless_take n rest) fun ⟨text, rest⟩ => ?_
    intro rows limit h
    dsimp only at h
    split at h <;> cases h
  | date => exact .bind (sizeless_takeLong bytes) fun _ => sizeless_ok _
  | timestamp => exact .bind (sizeless_takeLong bytes) fun _ => sizeless_ok _

theorem sizeless_takeValues (field : Field) (bits : List Bool) (bytes : Bytes) :
    Sizeless (takeValues field bits bytes) := by
  induction bits generalizing bytes with
  | nil => exact sizeless_ok _
  | cons bit bits ih =>
    cases bit with
    | false =>
      rw [takeValues]
      split
      · exact .bind (ih bytes) fun _ => sizeless_ok _
      · intro rows limit h
        cases h
    | true =>
      rw [takeValues]
      refine .bind (sizeless_takeValue _ bytes) fun taken => ?_
      exact .bind (ih taken.2) fun _ => sizeless_ok _

theorem sizeless_decode (field : Field) (rows : Nat) (bitmap values : Bytes) :
    Sizeless (decode field rows bitmap values) := by
  refine .bind (sizeless_takeCount _ bitmap) fun ⟨flags, rest⟩ => ?_
  dsimp only
  split
  · exact fun _ _ => nofun
  refine .bind (sizeless_take _ rest) fun ⟨packed, _⟩ => ?_
  refine .bind (sizeless_takeCount _ values) fun ⟨declared, data⟩ => ?_
  refine .bind (sizeless_takeValues field _ data) fun ⟨column, left⟩ => ?_
  dsimp only
  split
  · exact fun _ _ => nofun
  · exact sizeless_ok _

end Column

namespace FrameReader

theorem take_unsized (n : Nat) (cut : CutPoint) :
    Meets (fun _ => True) (fun _ => True) (¬ ·.TooLarge) (take n cut) where
  ok := fun _ _ _ _ _ => ⟨trivial, trivial⟩
  error := by
    intro r e r' _ h
    rw [take] at h
    split at h
    · cases h
    · split at h <;> cases h <;> rintro ⟨_, _, ⟨⟩⟩

theorem unpack_unsized {limit : Nat} {block : Bytes} {e : Error}
    (h : unpack limit block = .error e) : ¬ e.TooLarge := by
  rintro ⟨rows, limit, rfl⟩
  rw [unpack] at h
  split at h
  · cases h
  · split at h
    · cases h
    · split at h <;> cases h

theorem readMessage_unsized :
    Meets (fun _ => True) (fun _ => True) (¬ ·.TooLarge) readMessage := by
  have hframe : Meets (fun _ => True) (fun _ => True) (¬ ·.TooLarge) readFrame := by
    rw [readFrame]
    refine meets_get.bind fun r _ => ?_
    split
    · exact meets_pure trivial
    · refine (take_unsized 4 .beforeEnd).bind fun header _ => ?_
      dsimp only
      split
      · refine Meets.bind (Q := fun _ => True) (meets_modify fun _ hr => hr) fun _ _ => ?_
        exact meets_pure trivial
      split
      · exact meets_fail (by rintro ⟨_, _, ⟨⟩⟩)
      split
      · exact meets_pure trivial
      split
      · exact meets_fail (by rintro ⟨_, _, ⟨⟩⟩)
      · refine (take_unsized _ .insideFrame).bind fun block _ => ?_
        refine (meets_ofExcept fun e he => unpack_unsized he).bind fun m _ => ?_
        exact meets_pure trivial
  refine hframe.bind fun frame _ => ?_
  cases frame <;> exact meets_pure trivial

end FrameReader

/-- What comes behind the batches of a stream is nothing, or the marker. -/
theorem Follows.of_tail {tail : Bytes} (h : tail = [] ∨ tail = endMarker) : Follows tail := by
  obtain rfl | rfl := h
  · exact .nothing
  · exact .marker []

namespace RowReader

variable {limit : Nat}

theorem onFrames_unsized (limit : Nat) {α : Type} {x : Action FrameReader α}
    (hx : Meets (fun _ => True) (fun _ => True) (¬ ·.TooLarge) x) :
    Meets (fun r : RowReader => limit ≤ r.maxRows) (fun _ => True) (¬ ·.TooLarge) (onFrames x) :=
  meets_zoom hx (fun _ _ => trivial) fun _ _ hr _ => hr

theorem checkSchema_unsized {expected : Option Schema} {schema : Schema} {e : Error}
    (h : checkSchema expected schema = .error e) : ¬ e.TooLarge := by
  rintro ⟨rows, limit, rfl⟩
  cases expected with
  | none => cases h
  | some expected =>
    rw [checkSchema] at h
    split at h <;> cases h

theorem readSchema_unsized (limit : Nat) :
    Meets (fun r : RowReader => limit ≤ r.maxRows) (fun _ => True) (¬ ·.TooLarge) readSchema := by
  have hjson : Meets (fun _ => True) (fun _ => True) (¬ ·.TooLarge)
      (FrameReader.readJson Schema.decoder) := by
    refine FrameReader.readMessage_unsized.bind fun m _ => ?_
    cases m with
    | none => exact meets_pure trivial
    | some bytes =>
      dsimp only
      split
      · exact meets_pure trivial
      · exact meets_fail nofun
  rw [readSchema]
  refine meets_get.bind fun r _ => ?_
  split
  · exact meets_pure trivial
  · refine (onFrames_unsized limit hjson).bind fun schema _ => ?_
    cases schema with
    | none => exact meets_fail (by rintro ⟨_, _, ⟨⟩⟩)
    | some schema =>
      refine (meets_ofExcept fun e he => checkSchema_unsized he).bind fun _ _ => ?_
      refine Meets.bind (Q := fun _ => True) (meets_modify fun _ hr => hr) fun _ _ => ?_
      exact meets_pure trivial

theorem readPart_unsized :
    Meets (fun r : RowReader => limit ≤ r.maxRows) (fun _ => True) (¬ ·.TooLarge) readPart := by
  refine (onFrames_unsized limit FrameReader.readMessage_unsized).bind fun m _ => ?_
  cases m with
  | none => exact meets_fail nofun
  | some m => exact meets_pure trivial

theorem readColumns_unsized (rows : Nat) : (fields : List Field) →
    Meets (fun r : RowReader => limit ≤ r.maxRows) (fun _ => True) (¬ ·.TooLarge)
      (readColumns rows fields)
  | [] => meets_pure trivial
  | field :: fields => by
    rw [readColumns]
    refine readPart_unsized.bind fun bitmap _ => readPart_unsized.bind fun values _ => ?_
    have hdecode (e : Error)
        (he : (Column.decode field rows bitmap values).mapError (Error.data ∘ .decode) = .error e) :
        ¬ e.TooLarge := by
      rintro ⟨n, limit, rfl⟩
      rcases hcolumn : Column.decode field rows bitmap values with fault | column
      · rw [hcolumn] at he
        cases he
        exact Column.sizeless_decode field rows bitmap values n limit hcolumn
      · rw [hcolumn] at he
        cases he
    refine (meets_ofExcept hdecode).bind fun column _ => ?_
    exact (readColumns_unsized rows fields).bind fun _ _ => meets_pure trivial

/-- Only its row count can make a batch too large. -/
theorem readBody_unsized (schema : Schema) {message : Bytes}
    (hcount : rowCount message = .ok limit) :
    Meets (fun r : RowReader => limit ≤ r.maxRows) (fun _ => True) (¬ ·.TooLarge)
      (readBody schema message) := by
  rw [readBody, hcount]
  refine (meets_ofExcept (by rintro _ ⟨⟩)).bind fun rows hrows => ?_
  cases hrows
  refine meets_get.bind fun r hr => ?_
  rw [if_neg (Nat.not_lt_of_le hr)]
  refine (readColumns_unsized _ schema.fields).bind fun columns _ => ?_
  refine (readColumns_unsized _ schema.keys).bind fun keyColumns _ => ?_
  refine (meets_ofExcept fun e he => ?_).bind fun group _ => meets_pure trivial
  rintro ⟨n, limit, rfl⟩
  rw [RowGroup.ofColumns] at he
  split at he <;> cases he

variable {schema : Schema} {attempts : List Attempt} {stream tail : Bytes} {r r' : RowReader}
  {e : Error}

/-- A batch that is refused for its size has a row count that was read. -/
theorem readMessage_of_tooLarge (hs : r.schema = some schema) (h : readGroup r = (.error e, r'))
    (he : e.TooLarge) :
    ∃ m s, onFrames FrameReader.readMessage r = (.ok (some m), s) ∧
      readBody schema m s = (.error e, r') := by
  have hmessage := onFrames_unsized r.maxRows FrameReader.readMessage_unsized
  rw [readGroup, bind_ok (readSchema_known hs)] at h
  rcases hread : onFrames FrameReader.readMessage r with ⟨e' | m, s⟩
  · rw [bind_error hread] at h
    cases h
    exact absurd he (hmessage.error r e r' (Nat.le_refl _) hread)
  · rw [bind_ok hread] at h
    cases m with
    | none => cases h
    | some m => exact ⟨m, s, rfl, h⟩

/-- Behind the batches of a stream there is no batch that could be refused. -/
theorem drain_tail_unsized (hs : r.schema = some schema) (htail : tail = [] ∨ tail = endMarker)
    (hr : r.frames.Faces tail) (hfault : (drain r).1.fault = some e) : ¬ e.TooLarge := by
  have hmessage := onFrames_unsized r.maxRows FrameReader.readMessage_unsized
  rcases hread : onFrames FrameReader.readMessage r with ⟨e' | m, s⟩
  · have hgroup : readGroup r = (.error e', s) := by
      rw [readGroup, bind_ok (readSchema_known hs), bind_error hread]
    rw [drain_error hgroup] at hfault
    cases hfault
    exact hmessage.error r e s (Nat.le_refl _) hread
  · obtain ⟨frames, hframes, -⟩ := onFrames_eq_ok hread
    obtain rfl | rfl := htail
    · exact absurd hframes (FrameReader.readMessage_nothing hr)
    · have hend : r.frames.Faces (endMarker ++ []) := hr
      obtain ⟨rfl, -⟩ := FrameReader.readMessage_end hend hframes
      have hgroup : readGroup r = (.ok none, s) := by
        rw [readGroup, bind_ok (readSchema_known hs), bind_ok hread]
        rfl
      rw [drain_none hgroup] at hfault
      cases hfault

/-- A reader that accepts as many rows as the batches of a stream have never refuses one for its
size. -/
theorem drain_attempts_unsized (hs : r.schema = some schema) (hm : ∀ a ∈ attempts, a.Made schema)
    (htail : tail = [] ∨ tail = endMarker)
    (hr : r.frames.Faces (framed (attempts.flatMap (Attempt.outgoing schema)) ++ tail))
    (hsize : ∀ a ∈ attempts, a.rows.length ≤ r.maxRows)
    (hfault : (drain r).1.fault = some e) : ¬ e.TooLarge := by
  intro he
  induction attempts generalizing r with
  | nil => exact drain_tail_unsized hs htail hr hfault he
  | cons a attempts ih =>
    obtain ⟨ha, hlater⟩ := List.forall_mem_cons.mp hm
    obtain ⟨hfirst, hsizes⟩ := List.forall_mem_cons.mp hsize
    rcases Nat.eq_zero_or_pos a.sent with hzero | hsent
    · have hnone : a.outgoing schema = [] := by rw [Attempt.outgoing, hzero, List.take_zero]
      rw [List.flatMap_cons, hnone, List.nil_append] at hr
      exact ih hs hlater hr hsizes hfault
    · rw [List.flatMap_cons, framed_append, List.append_assoc] at hr
      rcases hgroup : readGroup r with ⟨e' | g, r'⟩
      · rw [drain_error hgroup] at hfault
        cases hfault
        obtain ⟨m, s, hread, hbody⟩ := readMessage_of_tooLarge hs hgroup he
        obtain ⟨frames, hframes, rfl⟩ := onFrames_eq_ok hread
        obtain ⟨count, front, back, hcount, -, -, -, -, hout⟩ := ha.outgoing_eq hsent
        have hframed := ha.framed count (by rw [hout]; exact List.mem_cons_self)
        rw [hout, framed_cons, List.append_assoc] at hr
        obtain ⟨hm, -⟩ := FrameReader.readMessage_first hframed hr hframes
        cases hm
        have hbounded := readBody_unsized schema (rowCount_encodeCount hcount)
        exact hbounded.error { r with frames } e r' hfirst hbody he
      · obtain ⟨-, rfl, rest', hrest', rfl⟩ := readGroup_attempt ha hsent hs
          (fun _ => .attempts hlater (.of_tail htail)) hr hgroup
        rw [drain_some hgroup] at hfault
        exact ih (r := r.facing rest') hs hlater (hr.facing hrest') hsizes hfault

/-- Where nothing was written, there is no announcement to read. -/
theorem readSchema_nothing {found : Schema} (hr : r.Fresh) (hp : r.frames.rest <+: []) :
    readSchema r ≠ (.ok found, r') := by
  intro h
  rw [readSchema, bind_ok (get_apply r), hr.unannounced] at h
  obtain ⟨decoded, s, hjson, -⟩ := bind_eq_ok.mp h
  obtain ⟨frames, hframes, -⟩ := onFrames_eq_ok hjson
  obtain ⟨message, t, hmessage, -⟩ := bind_eq_ok.mp hframes
  exact FrameReader.readMessage_nothing ⟨hr.unfinished, hp⟩ hmessage

/-- No reader of what a writer has put onto its transport, or of a part of it, refuses a batch for
its size if it accepts as many rows as the batches have. -/
theorem drain_unsized (hc : RowWriter.Carries schema attempts stream) (hr : r.Fresh)
    (hp : r.frames.rest <+: stream) (hsize : ∀ a ∈ attempts, a.rows.length ≤ r.maxRows)
    (hfault : (drain r).1.fault = some e) : ¬ e.TooLarge := by
  rcases hschema : readSchema r with ⟨e' | found, r'⟩
  · have hgroup : readGroup r = (.error e', r') := bind_error hschema
    rw [drain_error hgroup] at hfault
    cases hfault
    exact (readSchema_unsized r.maxRows).error r e r' (Nat.le_refl _) hschema
  · cases hc with
    | nothing => exact absurd hschema (readSchema_nothing hr hp)
    | batches hannounced hmade htail =>
      rw [sentMessages, framed_cons, List.append_assoc] at hp
      obtain ⟨rfl, rest', hrest', hreader⟩ := readSchema_first hr hannounced hp hschema
      have hknown : r'.schema = some found := by rw [hreader]
      rw [drain_congr (readGroup_of_readSchema hschema hknown)] at hfault
      refine drain_attempts_unsized hknown hmade htail ?_ ?_ hfault
      · rw [hreader]
        exact ⟨hr.unfinished, hrest'⟩
      · rw [hreader]
        exact hsize

end RowReader

/-! ### Batches and the threshold -/

namespace RowWriter

/-- Whatever was done with a writer, and whichever pieces its transport has refused: the transport
holds nothing, or the announcement and what went out of some batches, and perhaps the marker. What
went out of a batch starts with the number of its rows, of which there are at least one and not
more than the threshold; the first batch alone may be larger, by no more than the number of late
rows. A reader that accepts as much never refuses a batch for its size. -/
theorem batches_within (sink : Sink) (schema : Schema) (threshold : Nat) (uses : List Use) :
    let start := create sink schema threshold
    let bound := max threshold 1
    let late := (lateRows uses start).length
    ∃ attempts stream, (after uses start).frames.sink.bytes = sink.bytes ++ stream ∧
      Carries schema attempts stream ∧
      (∀ a ∈ attempts, 0 < a.sent → ∃ count columns,
        Column.encodeCount a.rows.length = .ok count ∧ a.outgoing schema = count :: columns) ∧
      (∀ a ∈ attempts, 1 ≤ a.rows.length ∧ a.rows.length ≤ bound + late) ∧
      (∀ a ∈ attempts.tail, a.rows.length ≤ bound) ∧
      ∀ r : RowReader, r.Fresh → r.frames.rest <+: stream → bound + late ≤ r.maxRows →
        ∀ e, (RowReader.drain r).1.fault = some e → ¬ e.TooLarge := by
  intro start bound late
  have hpos : 0 < bound := Nat.lt_of_lt_of_le Nat.zero_lt_one (Nat.le_max_right threshold 1)
  have hpaced : Paced schema bound sink.bytes 0 start {} :=
    ⟨create_records sink schema threshold, rfl, hpos, ⟨by simp, by simp⟩, Nat.add_pos_left hpos _⟩
  have hkept := after_kept (.going hpaced) uses
  rw [Nat.zero_add] at hkept
  obtain ⟨attempts, stream, hbytes, hcarries, hsized⟩ : ∃ attempts stream,
      (after uses start).frames.sink.bytes = sink.bytes ++ stream ∧
        Carries schema attempts stream ∧ Sized bound late attempts := by
    cases hkept with
    | going h =>
      obtain ⟨stream, hbytes, hcarries⟩ := h.records.carries
      exact ⟨_, stream, hbytes, hcarries, h.sized⟩
    | finished hf hbytes hcarries hsized => exact ⟨_, _, hbytes, hcarries, hsized⟩
  have hmade : ∀ a ∈ attempts, a.Made schema := by
    cases hcarries with
    | nothing => exact fun a ha => absurd ha List.not_mem_nil
    | batches hannounced hmade htail => exact hmade
  refine ⟨attempts, stream, hbytes, hcarries, fun a ha hsent => ?_, fun a ha => ?_, hsized.tail_le,
    fun r hfresh hprefix hlimit e hfault => ?_⟩
  · obtain ⟨count, front, back, hcount, -, -, -, -, hout⟩ := (hmade a ha).outgoing_eq hsent
    exact ⟨count, _, hcount, hout⟩
  · exact ⟨List.length_pos_iff.mpr (hmade a ha).rows_ne, hsized.all_le a ha⟩
  · have hsize : ∀ a ∈ attempts, a.rows.length ≤ r.maxRows :=
      fun a ha => Nat.le_trans (hsized.all_le a ha) hlimit
    exact RowReader.drain_unsized hcarries hfresh hprefix hsize hfault

/-- The announcement is refused while as many rows wait as the threshold, and one more row goes
into the same batch: a reader that accepts batches up to the threshold refuses it. -/
theorem announces_too_many :
    let row (n : Int64) : Use := .call (.row { vals := [.int64 n] })
    let schema : Schema := { fields := [⟨"n", .int64, false⟩] }
    let start := create (refusing 0) schema 2
    let uses := [row 1, row 2, row 3, .close]
    let stream := (after uses start).frames.sink.bytes
    lateRows uses start = [{ vals := [.int64 2] }] ∧
      (after uses start).frames.sink.pieces[1]? = some (frameBytes [3, 0, 0, 0]) ∧
      Column.encodeCount 3 = .ok [3, 0, 0, 0] ∧
      (RowReader.drain { frames := { rest := stream }, maxRows := 2 }).1.fault =
        some (.data (.decode (.batchTooLarge 3 2))) := by
  decide +kernel

end RowWriter

end StagedQuery

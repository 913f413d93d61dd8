import StagedQuery.Proofs.Stream.Cut

/-!
# Streams without an end

What reading frames keeps, reading batches keeps, and so does everything that is read until the
first error or the end (`FrameReader.Keeps`, `FrameReader.Keeps.drain`). Two things are kept.

A stream that has not been ended is a row of frames without a marker. A reader of such a stream,
or of a part of it, still faces frames and nothing else afterwards, or has failed: it never gets
to a clean end (`RowReader.drain_unended`), and it has an error to report that says so if the
other side has shut the transport down. Only a transport that is still open makes a reader wait.

The other way round, a reader that gets to a clean end has read the marker, and what is left
behind it is untouched (`RowReader.drain_marker`).
-/

namespace StagedQuery

open StagedQuery.Action

/-! ### What reading keeps -/

namespace FrameReader

/-- Reading frames keeps `P`, comes to an end only where `ends`, and fails only with errors of
which `E` holds, as it does of everything but waiting. -/
structure Keeps (P : FrameReader → Prop) (ends : Prop) (E : Error → Prop) : Prop where
  readFrame : Meets P (fun f => f = .done → ends) E readFrame
  other : ∀ e, e ≠ .wouldBlock → E e

namespace Keeps

variable {P : FrameReader → Prop} {ends : Prop} {E : Error → Prop} (h : Keeps P ends E)

include h

theorem readMessage : Meets P (fun m => m = none → ends) E readMessage := by
  refine h.readFrame.bind fun f hf => ?_
  cases f with
  | message bytes => exact meets_pure nofun
  | done => exact meets_pure fun _ => hf rfl

theorem readJson {α : Type} (decoder : Json.Decoder α) :
    Meets P (fun _ => True) E (readJson decoder) := by
  refine h.readMessage.bind fun m _ => ?_
  cases m with
  | none => exact meets_pure trivial
  | some bytes =>
    dsimp only
    split
    · exact meets_pure trivial
    · exact meets_fail (h.other _ Error.noConfusion)

end Keeps

end FrameReader

namespace FrameReader.Keeps

open RowReader

variable {P : FrameReader → Prop} {ends : Prop} {E : Error → Prop} (h : Keeps P ends E)

theorem onFrames {α : Type} {Q : α → Prop} {x : Action FrameReader α} (hx : Meets P Q E x) :
    Meets (fun r : RowReader => P r.frames) Q E (onFrames x) :=
  meets_zoom hx (fun _ hr => hr) fun _ _ _ ht => ht

include h

theorem data {α : Type} {x : Except DataError α} {e : Error}
    (hx : x.mapError Error.data = .error e) : E e := by
  refine h.other e ?_
  rintro rfl
  cases x <;> cases hx

theorem decode {α : Type} {x : Except DecodeError α} {e : Error}
    (hx : x.mapError (Error.data ∘ .decode) = .error e) : E e := by
  refine h.other e ?_
  rintro rfl
  cases x <;> cases hx

theorem checkSchema {expected : Option Schema} {schema : Schema} {e : Error}
    (hx : RowReader.checkSchema expected schema = .error e) : E e := by
  refine h.other e ?_
  rintro rfl
  cases expected with
  | none => cases hx
  | some expected =>
    rw [RowReader.checkSchema] at hx
    split at hx <;> cases hx

theorem readSchema : Meets (fun r : RowReader => P r.frames) (fun _ => True) E readSchema := by
  rw [RowReader.readSchema]
  refine meets_get.bind fun r _ => ?_
  split
  · exact meets_pure trivial
  · refine (onFrames (h.readJson _)).bind fun schema _ => ?_
    cases schema with
    | none => exact meets_fail (h.other _ Error.noConfusion)
    | some schema =>
      refine (meets_ofExcept fun e he => h.checkSchema he).bind fun _ _ => ?_
      refine Meets.bind (Q := fun _ => True) (meets_modify fun r hr => hr) fun _ _ => ?_
      exact meets_pure trivial

theorem readPart : Meets (fun r : RowReader => P r.frames) (fun _ => True) E readPart := by
  refine (onFrames h.readMessage).bind fun m _ => ?_
  cases m with
  | none => exact meets_fail (h.other _ Error.noConfusion)
  | some m => exact meets_pure trivial

theorem readColumns (rows : Nat) : (fields : List Field) →
    Meets (fun r : RowReader => P r.frames) (fun _ => True) E (readColumns rows fields)
  | [] => meets_pure trivial
  | _ :: fields => by
    rw [RowReader.readColumns]
    refine h.readPart.bind fun _ _ => h.readPart.bind fun _ _ => ?_
    refine (meets_ofExcept fun e he => h.decode he).bind fun _ _ => ?_
    exact (readColumns rows fields).bind fun _ _ => meets_pure trivial

theorem readBody (schema : Schema) (message : Bytes) :
    Meets (fun r : RowReader => P r.frames) (fun g => g ≠ none) E (readBody schema message) := by
  rw [RowReader.readBody]
  refine (meets_ofExcept fun e he => h.decode he).bind fun rows _ => ?_
  refine meets_get.bind fun r _ => ?_
  split
  · exact meets_fail (h.other _ Error.noConfusion)
  · refine (h.readColumns rows schema.fields).bind fun _ _ => ?_
    refine (h.readColumns rows schema.keys).bind fun _ _ => ?_
    refine (meets_ofExcept fun e he => h.data he).bind fun group _ => ?_
    exact meets_pure (Option.some_ne_none group)

/-- Batches are read as frames are. -/
theorem readGroup :
    Meets (fun r : RowReader => P r.frames) (fun g => g = none → ends) E readGroup := by
  rw [RowReader.readGroup]
  refine h.readSchema.bind fun schema _ => ?_
  refine (onFrames h.readMessage).bind fun m hm => ?_
  cases m with
  | none => exact meets_pure fun _ => hm rfl
  | some m => exact (h.readBody schema m).mono fun g hg hnone => absurd hnone hg

/-- And so is everything. -/
theorem drain {r : RowReader} (hr : P r.frames) :
    ((drain r).1.fault = none → ends ∧ P (drain r).2.frames) ∧
      ∀ e, (drain r).1.fault = some e → E e := by
  induction hleft : r.left using Nat.strongRecOn generalizing r with
  | ind left ih =>
    rcases hgroup : RowReader.readGroup r with ⟨e | g, r'⟩
    · have herror := h.readGroup.error r e r' hr hgroup
      rw [drain_error hgroup]
      refine ⟨nofun, ?_⟩
      rintro e' ⟨⟩
      exact herror
    · obtain ⟨hg, hr'⟩ := h.readGroup.ok r g r' hr hgroup
      cases g with
      | none =>
        rw [drain_none hgroup]
        exact ⟨fun _ => ⟨hg rfl, hr'⟩, nofun⟩
      | some g =>
        have hless : r'.left < left := hleft ▸ readGroup_left hgroup
        rw [drain_some hgroup]
        exact ih r'.left hless hr' rfl

end FrameReader.Keeps

/-! ### Streams that were not ended -/

/-- The bytes of a stream that was not ended: frames of messages, and no marker. -/
def Unended (stream : Bytes) : Prop :=
  ∃ ms, (∀ m ∈ ms, frameOf m = .ok (frameBytes m)) ∧ stream = framed ms

theorem Unended.nil : Unended [] := ⟨[], by simp, rfl⟩

/-- An error that a reader may report, of a transport that was shut down or was not: waiting is
none where nothing more can come. -/
def Error.Reportable (closed : Bool) (e : Error) : Prop := closed = true → e ≠ .wouldBlock

theorem Error.reportable {e : Error} (h : e ≠ .wouldBlock) (closed : Bool) : e.Reportable closed :=
  fun _ => h

namespace FrameReader

variable {closed : Bool}

/-- The reader faces frames without a marker. -/
structure Open (closed : Bool) (r : FrameReader) : Prop where
  closed_eq : r.closed = closed
  faces : ∃ stream, Unended stream ∧ r.Faces stream

theorem take_meets (n : Nat) (cut : CutPoint) :
    Meets (fun r : FrameReader => r.closed = closed) (fun _ => True) (Error.Reportable closed)
      (take n cut) where
  ok := by
    intro r front r' hr h
    obtain ⟨-, rest, -, rfl⟩ := take_eq_ok h
    exact ⟨trivial, hr⟩
  error := by
    intro r e r' hr h hclosed
    rw [take] at h
    split at h
    · cases h
    · rw [hr, hclosed, if_pos rfl] at h
      cases h
      exact Error.noConfusion

theorem unpack_reportable {limit : Nat} {block : Bytes} {e : Error}
    (h : unpack limit block = .error e) : e.Reportable closed := by
  refine e.reportable ?_ closed
  rintro rfl
  rw [unpack] at h
  split at h
  · cases h
  · split at h
    · cases h
    · split at h <;> cases h

/-- A reader of a transport that was shut down never waits. -/
theorem readFrame_reportable :
    Meets (fun r : FrameReader => r.closed = closed) (fun _ => True) (Error.Reportable closed)
      readFrame := by
  rw [readFrame]
  refine meets_get.bind fun r _ => ?_
  split
  · exact meets_pure trivial
  · refine (take_meets 4 .beforeEnd).bind fun header _ => ?_
    dsimp only
    split
    · refine Meets.bind (Q := fun _ => True) (meets_modify fun r hr => hr) fun _ _ => ?_
      exact meets_pure trivial
    split
    · exact meets_fail (Error.reportable Error.noConfusion closed)
    split
    · exact meets_pure trivial
    split
    · exact meets_fail (Error.reportable Error.noConfusion closed)
    · refine (take_meets _ .insideFrame).bind fun block _ => ?_
      refine (meets_ofExcept fun e he => unpack_reportable he).bind fun m _ => ?_
      exact meets_pure trivial

/-- Facing frames, a reader gets a frame, and faces frames. -/
theorem keeps_open : Keeps (Open closed) False (Error.Reportable closed) where
  readFrame :=
    { ok := by
        rintro r f r' ⟨hclosed, _, ⟨ms, hms, rfl⟩, hr⟩ h
        cases ms with
        | nil => exact absurd h (readFrame_nothing hr)
        | cons m ms =>
          obtain ⟨hm, hrest⟩ := List.forall_mem_cons.mp hms
          obtain ⟨rfl, rest, hprefix, rfl⟩ := readFrame_first hm hr h
          exact ⟨Frame.noConfusion, hclosed, _, ⟨ms, hrest, rfl⟩, hr.facing hprefix⟩
      error := fun r e r' hr h => readFrame_reportable.error r e r' hr.closed_eq h }
  other := fun e he => e.reportable he closed

end FrameReader

namespace RowReader

/-- Everything that a reader gets from a stream that was not ended ends in an error. -/
theorem drain_unended {r : RowReader} {closed : Bool} (h : r.frames.Open closed) :
    ∃ e, (drain r).1.fault = some e ∧ e.Reportable closed := by
  obtain ⟨hclean, herror⟩ := FrameReader.keeps_open.drain h
  cases hfault : (drain r).1.fault with
  | none => exact (hclean hfault).1.elim
  | some e => exact ⟨e, rfl, herror e hfault⟩

theorem Fresh.open {r : RowReader} (h : r.Fresh) {stream : Bytes} (hs : Unended stream)
    (hp : r.frames.rest <+: stream) : r.frames.Open r.frames.closed :=
  ⟨rfl, stream, hs, h.unfinished, hp⟩

end RowReader

/-! ### Ends -/

namespace FrameReader

/-- The reader has read a part of a stream, and the marker last if it is finished. -/
def Past (stream : Bytes) (r : FrameReader) : Prop :=
  ∃ front, stream = front ++ r.rest ∧ (r.finished = true → endMarker <:+ front)

theorem past_rest {r : FrameReader} (h : r.finished = false) : Past r.rest r := by
  refine ⟨[], rfl, ?_⟩
  intro hfinished
  rw [h] at hfinished
  cases hfinished

/-- Frames are taken from what is left, and the only one that ends a stream is the marker. -/
theorem keeps_past (stream : Bytes) : Keeps (Past stream) True (fun _ => True) where
  readFrame :=
    { ok := by
        rintro r f r' ⟨front, hstream, hfront⟩ h
        refine ⟨fun _ => trivial, ?_⟩
        rcases readFrame_cases h with ⟨m, bytes, rest, -, hf, hrest, rfl⟩ |
          ⟨rest, -, hrest, rfl⟩ | ⟨-, -, rfl⟩
        · refine ⟨front ++ bytes, by rw [hstream, hrest, List.append_assoc]; rfl, ?_⟩
          intro hfinished
          rw [finished_facing, hf] at hfinished
          cases hfinished
        · exact ⟨front ++ endMarker, by rw [hstream, hrest, List.append_assoc]; rfl,
            fun _ => List.suffix_append front endMarker⟩
        · exact ⟨front, hstream, hfront⟩
      error := fun _ _ _ _ _ => trivial }
  other := fun _ _ => trivial

theorem finished_of_readMessage {r r' : FrameReader} (h : readMessage r = (.ok none, r')) :
    r'.finished = true := by
  obtain ⟨f, s, hframe, hreturn⟩ := bind_eq_ok.mp h
  rcases readFrame_cases hframe with ⟨m, bytes, rest, rfl, -⟩ | ⟨rest, rfl, -, rfl⟩ |
    ⟨rfl, hf, rfl⟩
  · cases hreturn
  · cases hreturn
    rfl
  · cases hreturn
    exact hf

end FrameReader

namespace RowReader

theorem readBody_ne_none {r r' : RowReader} {schema : Schema} {message : Bytes}
    {g : Option RowGroup} (h : readBody schema message r = (.ok g, r')) : g ≠ none := by
  obtain ⟨rows, s, -, h⟩ := bind_eq_ok.mp h
  obtain ⟨_, s, -, h⟩ := bind_eq_ok.mp h
  split at h
  · cases h
  · obtain ⟨columns, s, -, h⟩ := bind_eq_ok.mp h
    obtain ⟨keyColumns, s, -, h⟩ := bind_eq_ok.mp h
    obtain ⟨group, s, -, h⟩ := bind_eq_ok.mp h
    cases h
    exact Option.some_ne_none group

theorem finished_of_readGroup {r r' : RowReader} (h : readGroup r = (.ok none, r')) :
    r'.frames.finished = true := by
  obtain ⟨schema, s, -, h⟩ := bind_eq_ok.mp h
  obtain ⟨m, t, hmessage, h⟩ := bind_eq_ok.mp h
  obtain ⟨frames, hframes, rfl⟩ := onFrames_eq_ok hmessage
  cases m with
  | none =>
    cases h
    exact FrameReader.finished_of_readMessage hframes
  | some m =>
    exact absurd rfl (readBody_ne_none h)

theorem drain_finished {r : RowReader} (h : (drain r).1.fault = none) :
    (drain r).2.frames.finished = true := by
  induction hleft : r.left using Nat.strongRecOn generalizing r with
  | ind left ih =>
    rcases hgroup : readGroup r with ⟨e | g, r'⟩
    · rw [drain_error hgroup] at h
      cases h
    · cases g with
      | none =>
        rw [drain_none hgroup]
        exact finished_of_readGroup hgroup
      | some g =>
        have hless : r'.left < left := hleft ▸ readGroup_left hgroup
        rw [drain_some hgroup] at h ⊢
        exact ih r'.left hless h rfl

/-- A reader that gets to a clean end has read up to the marker. -/
theorem drain_marker {r : RowReader} (hf : r.frames.finished = false)
    (h : (drain r).1.fault = none) :
    ∃ front, r.frames.rest = front ++ (endMarker ++ (drain r).2.frames.rest) := by
  have hpast := FrameReader.past_rest hf
  obtain ⟨-, front, hstream, hfront⟩ := ((FrameReader.keeps_past _).drain hpast).1 h
  obtain ⟨before, rfl⟩ := hfront (drain_finished h)
  exact ⟨before, by rw [hstream, List.append_assoc]⟩

end RowReader

end StagedQuery

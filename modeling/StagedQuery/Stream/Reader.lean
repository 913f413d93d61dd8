import StagedQuery.Codec.Data
import StagedQuery.Stream.Column
import StagedQuery.Wire.Frame

/-!
# Reading row streams

The reader of a row stream takes the schema first, which must have the columns that it
expects, if it expects any, and then batch after batch up to the marker. It trusts
nothing: the number of rows of a batch is bounded, and every column is checked.

`RowReader.readRow` hands out rows one by one, and `RowReader.delivery` says at once what
a stream brings: its batches, and the error that ends them, if it is not the marker. Both
end because every batch takes bytes from the transport, which has finitely many.
-/

namespace StagedQuery

/-! ### Reading takes bytes away -/

namespace FrameReader

open StagedQuery.Action

/-- The bytes that a transport still holds. -/
def left (r : FrameReader) : Nat := r.rest.length

theorem length_of_split? {n : Nat} {bytes front rest : Bytes}
    (h : Bytes.split? n bytes = some (front, rest)) : rest.length + n = bytes.length := by
  obtain ⟨hlength, hbytes⟩ := Bytes.split?_eq_some h
  rw [hbytes, List.length_append, hlength, Nat.add_comm]

theorem shrinks_take (n : Nat) (cut : CutPoint) : Shrinks left (take n cut) := by
  intro r
  simp only [take, left]
  split
  · rename_i h; have := length_of_split? h; simp only; omega
  · split <;> simp

theorem length_take {n : Nat} {cut : CutPoint} {r r' : FrameReader} {bytes : Bytes}
    (h : take n cut r = (.ok bytes, r')) : r'.rest.length + n = r.rest.length := by
  simp only [take] at h
  split at h
  · rename_i hs
    simp only [Prod.mk.injEq, Except.ok.injEq] at h
    obtain ⟨rfl, rfl⟩ := h
    exact length_of_split? hs
  · split at h <;> simp at h

/-- What follows the header of a frame. -/
private theorem shrinks_body (r : FrameReader) (length : Int) :
    Shrinks left (if length = -0x80000000 then (do
        Action.modify fun r : FrameReader => { r with finished := true }
        pure Frame.done)
      else if length < 0 then Action.fail (.malformedFrame (.negativeLength length))
      else if length = 0 then pure (.message [])
      else if r.maxMessage < length.toNat then
        Action.fail (.malformedFrame (.frameTooLarge length.toNat r.maxMessage))
      else (do
        let block ← take length.toNat .insideFrame
        return .message (← Action.ofExcept (unpack r.maxMessage block)))) := by
  split
  · exact Shrinks.bind (fun _ => Nat.le_refl _) fun _ => shrinks_pure _
  split
  · exact shrinks_fail _
  split
  · exact shrinks_pure _
  split
  · exact shrinks_fail _
  · exact Shrinks.bind (shrinks_take _ _) fun _ =>
      Shrinks.bind (shrinks_ofExcept _) fun _ => shrinks_pure _

/-- A frame that is a message takes at least its header. -/
theorem readFrame_length (r : FrameReader) :
    (readFrame r).2.rest.length ≤ r.rest.length ∧
      ∀ m, (readFrame r).1 = .ok (.message m) → (readFrame r).2.rest.length < r.rest.length := by
  have hget : (Action.get : Action FrameReader FrameReader) r = (.ok r, r) := rfl
  simp only [readFrame]
  rw [Action.bind_ok hget]
  cases hf : r.finished with
  | true => simp
  | false =>
    simp only [Bool.false_eq_true, if_false]
    cases ht : take 4 .beforeEnd r with
    | mk result r' =>
      cases result with
      | error e =>
        rw [Action.bind_error ht]
        have h := shrinks_take 4 .beforeEnd r
        rw [ht] at h
        exact ⟨h, by simp⟩
      | ok header =>
        rw [Action.bind_ok ht]
        have h4 := length_take ht
        have hb := shrinks_body r (headerLength header) r'
        simp only [left] at hb
        exact ⟨by omega, fun _ _ => by omega⟩

theorem shrinks_readFrame : Shrinks left readFrame := fun r => (readFrame_length r).1

theorem shrinks_readMessage : Shrinks left readMessage :=
  Shrinks.bind shrinks_readFrame fun frame => by cases frame <;> exact shrinks_pure _

/-- A message takes bytes away. -/
theorem readMessage_length {r r' : FrameReader} {m : Bytes}
    (h : readMessage r = (.ok (some m), r')) : r'.rest.length < r.rest.length := by
  have hl := readFrame_length r
  simp only [readMessage] at h
  cases hr : readFrame r with
  | mk result s =>
    rw [hr] at hl
    cases result with
    | error e => rw [Action.bind_error hr] at h; simp at h
    | ok frame =>
      rw [Action.bind_ok hr] at h
      cases frame with
      | done => simp at h
      | message m' =>
        simp only [Action.pure_apply, Prod.mk.injEq, Except.ok.injEq, Option.some.injEq] at h
        obtain ⟨rfl, rfl⟩ := h
        exact hl.2 _ rfl

theorem shrinks_readJson {α : Type} (decoder : Json.Decoder α) : Shrinks left (readJson decoder) :=
  Shrinks.bind shrinks_readMessage fun m => by
    cases m with
    | none => exact shrinks_pure _
    | some bytes =>
      dsimp only
      split
      · exact shrinks_pure _
      · exact shrinks_fail _

end FrameReader

/-! ### The reader -/

/-- What a stream brings: its batches, and the error after them, if they are not followed
by the marker. -/
structure Delivery where
  batches : List RowGroup
  fault : Option Error
  deriving Repr

/-- The largest batch that a reader accepts unless told otherwise. -/
def defaultMaxRows : Nat := 0x100000

/-- A reader of rows. -/
structure RowReader where
  frames : FrameReader
  /-- The schema whose columns the stream must have. -/
  expected : Option Schema := none
  /-- The schema that the stream announced, once it is read. -/
  schema : Option Schema := none
  /-- The largest batch that is accepted. -/
  maxRows : Nat := defaultMaxRows
  /-- The rows of the current batch that were not handed out yet. -/
  current : List Row := []

namespace RowReader

/-- Act on the frames. -/
def onFrames {α : Type} (x : Action FrameReader α) : Action RowReader α :=
  x.zoom (·.frames) fun r frames => { r with frames }

/-- Check that a stream has the columns that are expected. -/
def checkSchema (expected : Option Schema) (received : Schema) : Except Error Unit :=
  match expected with
  | none => .ok ()
  | some expected =>
    if expected.shape = received.shape then .ok ()
    else .error (.schemaMismatch (.differs expected.shape received.shape))

/-- The schema that the stream announces. -/
def readSchema : Action RowReader Schema := do
  let r ← .get
  match r.schema with
  | some schema => pure schema
  | none =>
    match ← onFrames (FrameReader.readJson Schema.decoder) with
    | none => .fail (.schemaMismatch .missing)
    | some schema =>
      .ofExcept (checkSchema r.expected schema)
      .modify fun r => { r with schema := some schema }
      pure schema

/-- A message inside a batch. -/
def readPart : Action RowReader Bytes := do
  match ← onFrames FrameReader.readMessage with
  | some message => pure message
  | none => .fail (.truncated .insideBatch)

/-- The columns of a batch of `rows` rows. -/
def readColumns (rows : Nat) : List Field → Action RowReader (List (List Value))
  | [] => pure []
  | field :: fields => do
    let bitmap ← readPart
    let values ← readPart
    let column ← .ofExcept ((Column.decode field rows bitmap values).mapError (.data ∘ .decode))
    return column :: (← readColumns rows fields)

/-- The row count that starts a batch. -/
def rowCount (message : Bytes) : Except DecodeError Nat := do
  let (count, rest) ← Column.takeCount "row count" message
  if rest ≠ [] then throw (.trailingBytes rest.length)
  pure count

/-! ### Batches take bytes away -/

/-- The bytes that the transport still holds. -/
def left (r : RowReader) : Nat := r.frames.left

open StagedQuery.Action in
theorem shrinks_onFrames {α : Type} {x : Action FrameReader α} (hx : Shrinks FrameReader.left x) :
    Shrinks left (onFrames x) :=
  shrinks_zoom hx (fun _ => rfl) (fun _ _ => rfl)

open StagedQuery.Action in
theorem shrinks_readSchema : Shrinks left readSchema := by
  refine .bind shrinks_get fun r => ?_
  split
  · exact shrinks_pure _
  · refine .bind (shrinks_onFrames (FrameReader.shrinks_readJson _)) fun schema => ?_
    cases schema with
    | none => exact shrinks_fail _
    | some schema =>
      exact .bind (shrinks_ofExcept _) fun _ =>
        .bind (shrinks_modify fun _ => Nat.le_refl _) fun _ => shrinks_pure _

open StagedQuery.Action in
theorem shrinks_readPart : Shrinks left readPart := by
  refine .bind (shrinks_onFrames FrameReader.shrinks_readMessage) fun m => ?_
  cases m with
  | none => exact shrinks_fail _
  | some m => exact shrinks_pure _

open StagedQuery.Action in
theorem shrinks_readColumns (rows : Nat) : (fields : List Field) →
    Shrinks left (readColumns rows fields)
  | [] => shrinks_pure _
  | _ :: fields =>
    .bind shrinks_readPart fun _ => .bind shrinks_readPart fun _ =>
      .bind (shrinks_ofExcept _) fun _ =>
        .bind (shrinks_readColumns rows fields) fun _ => shrinks_pure _

/-- What follows the row count of a batch. -/
def readBody (schema : Schema) (message : Bytes) : Action RowReader (Option RowGroup) := do
  let rows ← .ofExcept ((rowCount message).mapError (.data ∘ .decode))
  let r ← .get
  if r.maxRows < rows then .fail (.data (.decode (.batchTooLarge rows r.maxRows)))
  else
    let columns ← readColumns rows schema.fields
    let keyColumns ← readColumns rows schema.keys
    let group ← .ofExcept ((RowGroup.ofColumns rows columns keyColumns).mapError .data)
    pure (some group)

open StagedQuery.Action in
theorem shrinks_readBody (schema : Schema) (message : Bytes) :
    Shrinks left (readBody schema message) := by
  refine .bind (shrinks_ofExcept _) fun rows => .bind shrinks_get fun r => ?_
  split
  · exact shrinks_fail _
  · exact .bind (shrinks_readColumns _ _) fun _ => .bind (shrinks_readColumns _ _) fun _ =>
      .bind (shrinks_ofExcept _) fun _ => shrinks_pure _

/-- The next batch; there is none behind the marker. -/
def readGroup : Action RowReader (Option RowGroup) := do
  let schema ← readSchema
  match ← onFrames FrameReader.readMessage with
  | none => pure none
  | some message => readBody schema message

/-- A batch takes bytes away. -/
theorem readGroup_left {r r' : RowReader} {g : RowGroup}
    (h : readGroup r = (.ok (some g), r')) : r'.left < r.left := by
  simp only [readGroup] at h
  cases hs : readSchema r with
  | mk result s =>
    have hle := shrinks_readSchema r
    rw [hs] at hle
    cases result with
    | error e => rw [Action.bind_error hs] at h; simp at h
    | ok schema =>
      rw [Action.bind_ok hs] at h
      cases hm : onFrames FrameReader.readMessage s with
      | mk result t =>
        cases result with
        | error e => rw [Action.bind_error hm] at h; simp at h
        | ok message =>
          rw [Action.bind_ok hm] at h
          cases message with
          | none => simp at h
          | some message =>
            have hlt : t.left < s.left := by
              simp only [onFrames, Action.zoom, Prod.mk.injEq] at hm
              obtain ⟨hm, rfl⟩ := hm
              exact FrameReader.readMessage_length (Prod.ext hm rfl)
            have hb := shrinks_readBody schema message t
            simp only at h
            rw [h] at hb
            simp only at hle hb
            omega

/-! ### Rows -/

/-- The next row; there is none behind the marker. Empty batches are passed over. -/
def readRow (r : RowReader) : Except Error (Option Row) × RowReader :=
  match r.current with
  | row :: current => (.ok (some row), { r with current })
  | [] =>
    match _h : readGroup r with
    | (.error e, r') => (.error e, r')
    | (.ok none, r') => (.ok none, r')
    | (.ok (some g), r') => readRow { r' with current := g.intoRows }
termination_by r.left
decreasing_by
  show r'.left < r.left
  exact readGroup_left _h

/-- Everything that a reader can still get, and the reader afterwards. -/
def drain (r : RowReader) : Delivery × RowReader :=
  match _h : readGroup r with
  | (.error e, r') => ({ batches := [], fault := some e }, r')
  | (.ok none, r') => ({ batches := [], fault := none }, r')
  | (.ok (some g), r') =>
    let (d, r'') := drain r'
    ({ d with batches := g :: d.batches }, r'')
termination_by r.left
decreasing_by exact readGroup_left _h

/-- Every row up to the end of the stream. -/
def readAll : Action RowReader (List Row) := fun r =>
  let (d, r') := drain r
  match d.fault with
  | some e => (.error e, { r' with current := [] })
  | none => (.ok (r.current ++ d.batches.flatMap RowGroup.intoRows), { r' with current := [] })

end RowReader

namespace Delivery

/-- The rows of a delivery, in order. -/
def rows (d : Delivery) : List Row := d.batches.flatMap RowGroup.intoRows

end Delivery

end StagedQuery

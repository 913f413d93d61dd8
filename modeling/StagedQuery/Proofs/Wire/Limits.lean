import StagedQuery.Proofs.Wire.Cut

/-!
# Limits of a reader

A block yields as many bytes as it announces, or nothing (`Block.contentLength?_of_decompress`). So
it is enough to look at the announcement: no message that a reader gets is longer than its limit
(`FrameReader.length_of_readFrame`). Reading never changes the limit, nor whether the other side
has shut the transport down (`FrameReader.always_readFrame`).
-/

namespace StagedQuery

/-- What a block holds is as long as it announces. -/
theorem Block.contentLength?_of_decompress {block content : Bytes}
    (h : decompress block = some content) : contentLength? block = some content.length := by
  rw [decompress] at h
  obtain ⟨⟨length, elements⟩, hheader, h⟩ := Option.bind_eq_some_iff.mp h
  obtain ⟨produced, -, h⟩ := Option.bind_eq_some_iff.mp h
  split at h
  case isFalse => cases h
  rename_i hsize
  cases h
  have hblock : block.isEmpty = false := by
    cases block with
    | nil => cases hheader
    | cons b block => rfl
  rw [contentLength?, hblock, if_neg Bool.false_ne_true, hheader, Array.length_toList, hsize]
  rfl

namespace FrameReader

variable {r r' : FrameReader} {m : Bytes}

theorem length_of_unpack {limit : Nat} {block : Bytes} (h : unpack limit block = .ok m) :
    m.length ≤ limit := by
  rw [unpack] at h
  split at h
  · cases h
  · rename_i length hlength
    split at h
    · cases h
    · rename_i hle
      split at h
      · cases h
      · rename_i hcontent
        cases h
        rw [Block.contentLength?_of_decompress hcontent] at hlength
        cases hlength
        exact Nat.not_lt.mp hle

/-- Neither a message that is read nor what it was unpacked from is longer than the limit. -/
theorem length_of_readFrame (h : readFrame r = (.ok (.message m), r')) :
    m.length ≤ r.maxMessage ∧ r.rest.length ≤ 4 + r.maxMessage + r'.rest.length := by
  rw [readFrame, Action.bind_ok (Action.get_apply r)] at h
  split at h
  · cases h
  obtain ⟨header, s, htake, h⟩ := Action.bind_eq_ok.mp h
  obtain ⟨hheader, rest, hrest, rfl⟩ := take_eq_ok htake
  rw [hrest, List.length_append, hheader]
  split at h
  · cases h
  split at h
  · cases h
  split at h
  · cases h
    exact ⟨Nat.zero_le _, Nat.add_le_add_right (Nat.le_add_right 4 _) _⟩
  split at h
  · cases h
  rename_i hle
  obtain ⟨block, t, hblock, h⟩ := Action.bind_eq_ok.mp h
  obtain ⟨hlength, rest', hrest', rfl⟩ := take_eq_ok hblock
  obtain ⟨content, u, hunpack, hreturn⟩ := Action.bind_eq_ok.mp h
  obtain ⟨hcontent, rfl⟩ := Action.ofExcept_eq_ok.mp hunpack
  cases hreturn
  have hrest : rest.length = block.length + rest'.length := by
    rw [← List.length_append]
    exact congrArg List.length hrest'
  refine ⟨length_of_unpack hcontent, ?_⟩
  show 4 + rest.length ≤ 4 + r.maxMessage + rest'.length
  omega

/-! ### What reading leaves as it is -/

/-- The limit of the reader, and whether its transport was shut down. -/
def Alike (r r' : FrameReader) : Prop :=
  r'.maxMessage = r.maxMessage ∧ r'.closed = r.closed

instance : IsPreorder FrameReader Alike where
  refl := fun _ => ⟨rfl, rfl⟩
  trans := fun _ _ _ h h' => ⟨h'.1.trans h.1, h'.2.trans h.2⟩

open StagedQuery.Action

theorem always_take (n : Nat) (cut : CutPoint) : Always Alike (take n cut) := by
  intro r
  rw [take]
  split
  · exact ⟨rfl, rfl⟩
  · split <;> exact ⟨rfl, rfl⟩

theorem always_readFrame : Always Alike readFrame := by
  refine .bind always_get fun r => ?_
  split
  · exact always_pure _
  refine .bind (always_take 4 .beforeEnd) fun header => ?_
  dsimp only
  split
  · exact .bind (always_modify fun r => ⟨rfl, rfl⟩) fun _ => always_pure _
  split
  · exact always_fail _
  split
  · exact always_pure _
  split
  · exact always_fail _
  · refine .bind (always_take _ .insideFrame) fun block => ?_
    exact .bind (always_ofExcept _) fun m => always_pure _

theorem always_readMessage : Always Alike readMessage := by
  refine .bind always_readFrame fun f => ?_
  cases f <;> exact always_pure _

theorem always_readJson {α : Type} (decoder : Json.Decoder α) :
    Always Alike (readJson decoder) := by
  refine .bind always_readMessage fun m => ?_
  cases m with
  | none => exact always_pure _
  | some bytes =>
    dsimp only
    split
    · exact always_pure _
    · exact always_fail _

end FrameReader

end StagedQuery

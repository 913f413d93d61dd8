import StagedQuery.Proofs.Wire.Frame

/-!
# Sizes of frames

A block may be longer than its content, but not much: no element takes more than twice as many
bytes as it produces, and the elements produce the content (`Block.length_compress_le`). So a
message goes through to every reader whose limit leaves twice its length, and five bytes
(`Passes.of_short`).
-/

namespace StagedQuery

namespace Block

namespace Element

/-- The number of bytes that an element produces. -/
def count : Element → Nat
  | .literal bytes => bytes.length
  | .copy _ count => count

theorem size_copyBack (offset count : Nat) (done : Array UInt8) :
    (copyBack offset count done).size = done.size + count := by
  induction count generalizing done with
  | zero => rfl
  | succ count ih =>
    rw [copyBack, ih, Array.size_push]
    omega

theorem size_carryOut {e : Element} {length : Nat} {done done' : Array UInt8}
    (h : e.carryOut length done = some done') : done'.size = done.size + e.count := by
  cases e with
  | literal bytes =>
    obtain ⟨-, h⟩ := Option.ite_none_left_eq_some.mp h
    cases h
    rw [← Array.length_toList, Array.toList_appendList, List.length_append]
    rfl
  | copy offset n =>
    obtain ⟨-, h⟩ := Option.ite_none_left_eq_some.mp h
    cases h
    exact size_copyBack offset n done

theorem length_encode_le {e : Element} (h : e.Writable) : e.encode.length ≤ 2 * e.count := by
  cases e with
  | literal bytes =>
    have hpos : 0 < bytes.length := h.1
    simp only [encode, count]
    split
    · rw [List.length_cons]
      omega
    · split
      · rw [List.length_cons, List.length_cons]
        omega
      · rw [List.length_cons, List.length_cons, List.length_cons]
        omega
  | copy offset n =>
    have hcount : 4 ≤ n := h.2.2.1
    simp only [encode, count]
    split
    · simp
      omega
    · simp
      omega

end Element

theorem length_flatMap_encode_le {elements : List Element} (h : ∀ e ∈ elements, e.Writable)
    {length : Nat} {done done' : Array UInt8}
    (hdone : carryOutAll length done elements = some done') :
    2 * done.size + (elements.flatMap Element.encode).length ≤ 2 * done'.size := by
  induction elements generalizing done with
  | nil =>
    cases hdone
    simp
  | cons e elements ih =>
    obtain ⟨next, hnext, hrest⟩ := Option.bind_eq_some_iff.mp hdone
    obtain ⟨he, helements⟩ := List.forall_mem_cons.mp h
    have hsize := Element.size_carryOut hnext
    have hlength := Element.length_encode_le he
    have hrest := ih helements hrest
    rw [List.flatMap_cons, List.length_append]
    omega

theorem length_varint_le (places n : Nat) (h : n < Nat.pow 128 (places + 1)) :
    (varint n).length ≤ places + 1 := by
  induction places generalizing n with
  | zero =>
    have h : n < 128 := h
    rw [varint, if_pos h]
    exact Nat.le_refl _
  | succ places ih =>
    rw [varint]
    split
    · exact Nat.succ_le_succ (Nat.zero_le _)
    · have hpow : Nat.pow 128 (places + 1 + 1) = Nat.pow 128 (places + 1) * 128 := rfl
      exact Nat.succ_le_succ (ih (n / 128) (Nat.div_lt_of_lt_mul (by omega)))

/-- A block takes at most twice as many bytes as its content, and five for the length. -/
theorem length_compress_le {content : Bytes} (h : content.length ≤ maxLength) :
    (compress content).length ≤ 2 * content.length + 5 := by
  have hdone := carryOutAll_contentElements content.length #[] content (by simp)
  have helements := length_flatMap_encode_le
    (fun e (he : e ∈ contentElements content) => writable_contentElements he) hdone
  have hlength := length_varint_le 4 content.length (Nat.lt_of_le_of_lt h (by decide))
  rw [Array.size_append, List.size_toArray, List.size_toArray] at helements
  rw [compress, List.length_append]
  simp only [List.length_nil] at helements
  omega

end Block

/-- A message goes through if twice its length does. -/
theorem Passes.of_short {limit : Nat} {m : Bytes} (hlimit : 2 * m.length + 5 ≤ limit)
    (hshort : 2 * m.length + 5 < 0x80000000) : Passes limit m := by
  cases m with
  | nil => exact ⟨rfl, Nat.le_add_right 4 limit, Nat.zero_le _⟩
  | cons b m =>
    have hmax : (b :: m).length ≤ Block.maxLength := by
      simp only [Block.maxLength]
      omega
    have hroom : ¬ Block.maxLength < Block.roomFor (b :: m).length := by
      simp only [Block.maxLength, Block.roomFor]
      omega
    have hlength := Block.length_compress_le hmax
    have hframe : frameOf (b :: m) =
        .ok (Bytes.le32 (UInt32.ofNat (Block.compress (b :: m)).length)
          ++ Block.compress (b :: m)) := by
      rw [frameOf, if_neg (by simp), if_neg hroom]
      exact if_pos (by omega)
    have hbytes := congrArg (fun frame => frame.toOption.getD []) hframe
    refine ⟨hframe.trans (congrArg _ hbytes.symm), ?_, by omega⟩
    rw [frameBytes, hbytes]
    show (_ ++ _ : Bytes).length ≤ _
    rw [List.length_append, Bytes.length_le32]
    omega

end StagedQuery

import StagedQuery.Wire.Block

/-!
# Blocks are read back

The block of a content announces its length (`contentLength?_compress`) and holds it
(`decompress_compress`). The proof follows the block from the outside in: a length that was
written is read back, an element that was written is read back, and carrying out the elements
of a fragment goes through the prefixes of the fragment (`upTo`), a literal or a copy at a
time. Of the search for repeats it uses only that `repeatEnd` compares bytes; nothing is
asked of what the search remembers.
-/

namespace StagedQuery.Block

/-! ### Lengths -/

theorem varint?_varint (places n : Nat) (rest : Bytes) (h : n < Nat.pow 128 (places + 1)) :
    varint? (places + 1) (varint n ++ rest) = some (n, rest) := by
  induction places generalizing n with
  | zero =>
    have h : n < 128 := h
    rw [varint, if_pos h]
    have : UInt8.ofNat n < 0x80 := by
      rw [UInt8.lt_iff_toNat_lt]; simp; omega
    simp [varint?, this]; omega
  | succ places ih =>
    rw [varint]
    split
    · have : UInt8.ofNat n < 0x80 := by
        rw [UInt8.lt_iff_toNat_lt]; simp; omega
      simp [varint?, this]; omega
    · have h' : n / 128 < Nat.pow 128 (places + 1) :=
        Nat.div_lt_of_lt_mul (by rw [Nat.mul_comm]; exact h)
      have : ¬ UInt8.ofNat (n % 128 + 128) < 0x80 := by
        rw [UInt8.lt_iff_toNat_lt]; simp; omega
      simp only [List.cons_append, varint?, this, if_false, ih _ h', Option.map_some]
      simp; omega

/-! ### Elements -/

namespace Element

/-- An element that its bytes can express: a literal has at most 65536 bytes, and a copy from
four to 64, from fewer than 65536 places back. -/
def Writable : Element → Prop
  | .literal bytes => 0 < bytes.length ∧ bytes.length ≤ 65536
  | .copy offset count => 0 < offset ∧ offset < 65536 ∧ 4 ≤ count ∧ count ≤ 64

theorem split?_length (bytes rest : Bytes) (h : 0 < bytes.length) :
    Bytes.split? (bytes.length - 1 + 1) (bytes ++ rest) = some (bytes, rest) := by
  rw [show bytes.length - 1 + 1 = bytes.length by omega, Bytes.split?_append]

theorem read?_encode {e : Element} (h : e.Writable) (rest : Bytes) :
    ∃ tag tail, e.encode = tag :: tail ∧ read? tag (tail ++ rest) = some (e, rest) := by
  match e with
  | .literal bytes =>
    obtain ⟨h0, h1⟩ := h
    simp only [encode]
    split
    · rename_i hs
      refine ⟨_, _, rfl, ?_⟩
      have h2 : (bytes.length - 1) * 4 % 256 / 4 = bytes.length - 1 := by omega
      simp [read?, h2, hs, split?_length _ _ h0]
    · split
      · refine ⟨_, _, rfl, ?_⟩
        have h2 : (UInt8.ofNat (bytes.length - 1)).toNat = bytes.length - 1 := by
          simp; omega
        simp [read?, little, h2, split?_length, h0]
      · refine ⟨_, _, rfl, ?_⟩
        have h2 : (bytes.length - 1) % 256 + 256 * ((bytes.length - 1) / 256 % 256)
            = bytes.length - 1 := by omega
        simp [read?, little, h2, split?_length, h0]
  | .copy offset count =>
    obtain ⟨h0, h1, h2, h3⟩ := h
    simp only [encode]
    split
    · rename_i hs
      refine ⟨_, _, rfl, ?_⟩
      have ht : (UInt8.ofNat (offset / 256 * 32 + (count - 4) * 4 + 1)).toNat
          = offset / 256 * 32 + (count - 4) * 4 + 1 := by simp; omega
      have hm : (offset / 256 * 32 + (count - 4) * 4 + 1) % 4 = 1 := by omega
      simp [read?, little, hm]
      omega
    · refine ⟨_, _, rfl, ?_⟩
      have ht : (UInt8.ofNat ((count - 1) * 4 + 2)).toNat = (count - 1) * 4 + 2 := by simp; omega
      have hm : ((count - 1) * 4 + 2) % 4 = 2 := by omega
      simp [read?, little, hm]
      omega

end Element

/-- Reading elements that were written carries them out. -/
theorem produce?_encode {elements : List Element} (h : ∀ e ∈ elements, e.Writable)
    (length fuel : Nat) (done : Array UInt8)
    (hf : (elements.flatMap Element.encode).length ≤ fuel) :
    produce? length fuel (elements.flatMap Element.encode) done
      = elements.foldlM (Element.carryOut length) done := by
  induction elements generalizing fuel done with
  | nil => simp [produce?]
  | cons e elements ih =>
    obtain ⟨tag, tail, he, hr⟩ :=
      Element.read?_encode (h e (by simp)) (elements.flatMap Element.encode)
    simp only [List.flatMap_cons, he, List.cons_append, List.length_cons, List.length_append] at hf
    obtain ⟨fuel, rfl⟩ : ∃ k, fuel = k + 1 := ⟨fuel - 1, by omega⟩
    simp only [List.flatMap_cons, he, List.cons_append, produce?, hr, List.foldlM_cons,
      Option.bind_eq_bind, Option.bind_some]
    congr 1
    funext done
    exact ih (fun e he => h e (by simp [he])) fuel done (by omega)

/-! ### Repeats -/

theorem repeatEnd_le (data : Array UInt8) (offset left i : Nat) :
    i ≤ repeatEnd data offset left i ∧ repeatEnd data offset left i ≤ i + left := by
  induction left generalizing i with
  | zero => simp [repeatEnd]
  | succ left ih =>
    rw [repeatEnd]
    split
    · have := ih (i + 1); omega
    · omega

theorem getD_of_lt_repeatEnd (data : Array UInt8) (offset left i j : Nat) (h : i ≤ j)
    (hj : j < repeatEnd data offset left i) : data.getD (j - offset) 0 = data.getD j 0 := by
  induction left generalizing i with
  | zero => simp only [repeatEnd] at hj; omega
  | succ left ih =>
    rw [repeatEnd] at hj
    split at hj
    · rcases Nat.eq_or_lt_of_le h with rfl | h
      · assumption
      · exact ih (i + 1) h hj
    · omega

/-- The bytes before a position, behind others. -/
abbrev upTo (base data : Array UInt8) (i : Nat) : Array UInt8 := base ++ data.extract 0 i

theorem size_upTo (base data : Array UInt8) {i : Nat} (h : i ≤ data.size) :
    (upTo base data i).size = base.size + i := by
  simp [upTo]; omega

theorem upTo_succ (base data : Array UInt8) {i : Nat} (h : i < data.size) :
    (upTo base data i).push data[i] = upTo base data (i + 1) := by
  rw [upTo, upTo, Array.push_append, Array.push_extract_getElem h]
  simp

/-- A copy of a repeat brings the bytes of the repeat. -/
theorem copyBack_upTo (base data : Array UInt8) {offset : Nat} (h0 : 0 < offset) (count i : Nat)
    (ho : offset ≤ i) (hi : i + count ≤ data.size)
    (h : ∀ j, i ≤ j → j < i + count → data.getD (j - offset) 0 = data.getD j 0) :
    Element.copyBack offset count (upTo base data i) = upTo base data (i + count) := by
  induction count generalizing i with
  | zero => rfl
  | succ count ih =>
    have hb : (upTo base data i)[(upTo base data i).size - offset]?.getD 0 = data[i] := by
      have := h i (Nat.le_refl _) (by omega)
      rw [size_upTo base data (by omega), upTo, Array.getElem?_append_right (by omega)]
      rw [show base.size + i - offset - base.size = i - offset by omega]
      have hk : (data.extract 0 i)[i - offset]? = data[i - offset]? := by
        rw [Array.getElem?_extract]; simp; omega
      simp only [Array.getD_eq_getD_getElem?] at this
      rw [hk, this]
      simp [show i < data.size by omega]
    rw [Element.copyBack, hb, upTo_succ base data (by omega), ih (i + 1) (by omega) (by omega)]
    · rw [show i + 1 + count = i + (count + 1) by omega]
    · intro j h1 h2; exact h j (by omega) (by omega)

/-! ### What elements produce -/

/-- What carrying out elements produces behind what was produced before. -/
abbrev carryOutAll (length : Nat) (done : Array UInt8) (elements : List Element) :
    Option (Array UInt8) :=
  elements.foldlM (Element.carryOut length) done

theorem carryOutAll_literalBetween (base data : Array UInt8) {length i j : Nat} (hij : i ≤ j)
    (hj : j ≤ data.size) (hl : base.size + data.size ≤ length) :
    carryOutAll length (upTo base data i) (literalBetween data i j) = some (upTo base data j) := by
  rw [literalBetween]
  split
  · have hs : (data.extract i j).toList.length = j - i := by simp; omega
    have : ¬ length < (upTo base data i).size + (data.extract i j).toList.length := by
      rw [size_upTo base data (by omega), hs]; omega
    simp only [carryOutAll, List.foldlM_cons, List.foldlM_nil, Element.carryOut, if_neg this]
    simp only [Option.pure_def, Option.bind_eq_bind, Option.bind_some, Option.some.injEq]
    apply Array.toList_inj.mp
    simp [upTo, ← List.take_add, Nat.add_sub_cancel' hij]
  · obtain rfl : i = j := by omega
    rfl

theorem carryOutAll_copies (base data : Array UInt8) {length offset i : Nat} (count : Nat)
    (h0 : 0 < offset) (ho : offset ≤ i) (hi : i + count ≤ data.size)
    (hl : base.size + data.size ≤ length)
    (h : ∀ j, i ≤ j → j < i + count → data.getD (j - offset) 0 = data.getD j 0) :
    carryOutAll length (upTo base data i) ((copyCounts count).map (.copy offset))
      = some (upTo base data (i + count)) := by
  have one (c i : Nat) (ho : offset ≤ i) (hi : i + c ≤ data.size)
      (h : ∀ j, i ≤ j → j < i + c → data.getD (j - offset) 0 = data.getD j 0) :
      Element.carryOut length (upTo base data i) (.copy offset c)
        = some (upTo base data (i + c)) := by
    have := size_upTo base data (show i ≤ data.size by omega)
    rw [Element.carryOut, if_neg (by omega), copyBack_upTo base data h0 c i ho hi h]
  fun_induction copyCounts count generalizing i with
  | case1 count hc ih =>
    simp only [carryOutAll, List.map_cons, List.foldlM_cons,
      one 64 i ho (by omega) (fun j h1 h2 => h j h1 (by omega)), Option.bind_eq_bind,
      Option.bind_some]
    have := ih (i := i + 64) (by omega) (by omega) (fun j h1 h2 => h j (by omega) (by omega))
    rw [show i + 64 + (count - 64) = i + count by omega] at this
    exact this
  | case2 count _ hc =>
    simp only [carryOutAll, List.map_cons, List.map_nil, List.foldlM_cons, List.foldlM_nil,
      one 60 i ho (by omega) (fun j h1 h2 => h j h1 (by omega)), Option.bind_eq_bind,
      Option.bind_some,
      one (count - 60) (i + 60) (by omega) (by omega) (fun j h1 h2 => h j (by omega) (by omega))]
    rw [show i + 60 + (count - 60) = i + count by omega]; rfl
  | case3 count =>
    simp [carryOutAll, one count i ho hi h]

/-- The elements of a fragment produce the fragment. -/
theorem carryOutAll_elementsFrom (length : Nat) (base data : Array UInt8)
    (hl : base.size + data.size ≤ length) (rounds : Nat) (seen : Seen) {written i : Nat}
    (hw : written ≤ data.size) (hi : written ≤ i) :
    carryOutAll length (upTo base data written) (elementsFrom data rounds seen written i)
      = some (base ++ data) := by
  have last : carryOutAll length (upTo base data written) (literalBetween data written data.size)
      = some (base ++ data) := by
    rw [carryOutAll_literalBetween base data hw (Nat.le_refl _) hl]; simp [upTo]
  induction rounds generalizing seen written i with
  | zero => exact last
  | succ rounds ih =>
    rw [elementsFrom]
    split
    · exact last
    · dsimp only
      split
      · rename_i hm
        obtain ⟨hg, hm⟩ := hm
        have hs := repeatEnd_le data (i - seen.guess data i) (data.size - i) i
        generalize hst : repeatEnd data (i - seen.guess data i) (data.size - i) i = stop at *
        have hle : stop ≤ data.size := by omega
        rw [carryOutAll, List.foldlM_append, List.foldlM_append]
        have h1 := carryOutAll_literalBetween base data hi (show i ≤ data.size by omega) hl
        have h2 := carryOutAll_copies base data (stop - i)
          (show 0 < i - seen.guess data i by omega) (show _ ≤ i by omega) (by omega) hl
          (fun j h1 h2 => getD_of_lt_repeatEnd data _ (data.size - i) i j h1 (by omega))
        rw [carryOutAll] at h1 h2
        rw [h1, Option.bind_eq_bind, Option.bind_some, h2, Option.bind_some,
          show i + (stop - i) = stop by omega]
        refine ih _ hle (Nat.le_refl _) ?_
        rw [carryOutAll_literalBetween base data hle (Nat.le_refl _) hl]; simp [upTo]
      · exact ih _ hw (by omega) last

/-- The elements of a content produce the content. -/
theorem carryOutAll_contentElements (length : Nat) (base : Array UInt8) (content : Bytes)
    (hl : base.size + content.length ≤ length) :
    carryOutAll length base (contentElements content) = some (base ++ content.toArray) := by
  fun_induction contentElements content generalizing base with
  | case1 content h =>
    obtain rfl : content = [] := by simpa using h
    simp [carryOutAll]
  | case2 content h ih =>
    have hs : (content.take fragmentSize).length + (content.drop fragmentSize).length
        = content.length := by rw [← List.length_append, List.take_append_drop]
    have h1 := carryOutAll_elementsFrom length base (content.take fragmentSize).toArray
      (by simp only [List.size_toArray]; omega)
      (content.take fragmentSize).toArray.size
      (.none (content.take fragmentSize).toArray.size) (Nat.zero_le _) (Nat.zero_le 1)
    rw [carryOutAll, upTo] at h1
    simp only [Array.extract_zero] at h1
    rw [carryOutAll, List.foldlM_append, fragmentElements]
    simp at h1 ⊢
    rw [h1, Option.bind_some]
    have := ih (base ++ (content.take fragmentSize).toArray) (by simp at hs ⊢; omega)
    simp [carryOutAll] at this
    simpa using this

/-! ### Elements that can be written -/

theorem mem_copyCounts {count c : Nat} (h : 4 ≤ count) (hc : c ∈ copyCounts count) :
    4 ≤ c ∧ c ≤ 64 := by
  fun_induction copyCounts count with
  | case1 count _ ih =>
    rcases List.mem_cons.mp hc with rfl | hc
    · omega
    · exact ih (by omega) hc
  | case2 => simp at hc; omega
  | case3 => simp at hc; omega

theorem writable_literalBetween {data : Array UInt8} (hd : data.size ≤ fragmentSize) {i j : Nat}
    {e : Element} (h : e ∈ literalBetween data i j) (hj : j ≤ data.size) : e.Writable := by
  rw [literalBetween] at h
  split at h
  · obtain rfl := List.mem_singleton.mp h
    rw [fragmentSize] at hd
    simp only [Element.Writable, Array.length_toList, Array.size_extract]
    omega
  · exact absurd h List.not_mem_nil

theorem writable_elementsFrom {data : Array UInt8} (hd : data.size ≤ fragmentSize)
    (rounds : Nat) (seen : Seen) {written i : Nat} {e : Element}
    (h : e ∈ elementsFrom data rounds seen written i) : e.Writable := by
  induction rounds generalizing seen written i with
  | zero => exact writable_literalBetween hd h (Nat.le_refl _)
  | succ rounds ih =>
    rw [elementsFrom] at h
    split at h
    · exact writable_literalBetween hd h (Nat.le_refl _)
    · dsimp only at h
      split at h
      · rename_i hm
        have hs := repeatEnd_le data (i - seen.guess data i) (data.size - i) i
        rw [fragmentSize] at hd
        rcases List.mem_append.mp h with h | h
        · rcases List.mem_append.mp h with h | h
          · exact writable_literalBetween hd h (by omega)
          · obtain ⟨c, hc, rfl⟩ := List.mem_map.mp h
            have := mem_copyCounts (by omega) hc
            simp only [Element.Writable]
            omega
        · exact ih _ h
      · exact ih _ h

theorem writable_contentElements {content : Bytes} {e : Element}
    (h : e ∈ contentElements content) : e.Writable := by
  fun_induction contentElements content with
  | case1 => exact absurd h List.not_mem_nil
  | case2 content _ ih =>
    rcases List.mem_append.mp h with h | h
    · refine writable_elementsFrom ?_ _ _ h
      rw [List.size_toArray, List.length_take]
      exact Nat.min_le_left _ _
    · exact ih h

/-! ### Blocks -/

theorem header?_compress {content : Bytes} (h : content.length ≤ maxLength) :
    header? (compress content)
      = some (content.length, (contentElements content).flatMap Element.encode) := by
  have : content.length < Nat.pow 128 (4 + 1) := Nat.lt_of_le_of_lt h (by decide)
  simp [header?, compress, varint?_varint 4 _ _ this, h]

/-- Every content is read back from its block. -/
theorem decompress_compress {content : Bytes} (h : content.length ≤ maxLength) :
    decompress (compress content) = some content := by
  have hp := produce?_encode (fun (e : Element) (he : e ∈ contentElements content) =>
      writable_contentElements he)
    content.length _ #[] (Nat.le_refl _)
  have hc := carryOutAll_contentElements content.length #[] content (by simp)
  rw [carryOutAll] at hc
  rw [decompress, header?_compress h]
  simp only [Option.bind_eq_bind, Option.bind_some, hp, hc]
  simp

/-- A block announces the length of its content. -/
theorem contentLength?_compress {content : Bytes} (h : content.length ≤ maxLength) :
    contentLength? (compress content) = some content.length := by
  have : (compress content).isEmpty = false := by
    rw [compress, varint]; split <;> rfl
  simp [contentLength?, this, header?_compress h]

end StagedQuery.Block

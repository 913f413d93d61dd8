import StagedQuery.Proofs.Action
import StagedQuery.Proofs.Text.Utf8
import StagedQuery.Stream.Column

/-!
# Columns are read back

`decode_encode`: what is written for a column decodes to the column, if its field admits the
absent values that it holds. `encode_isOk` says when a column can be written at all: its values
must have the type of the column, and the column and its texts must be countable.
-/

namespace StagedQuery.Column

/-! ### Bits -/

/-- The number whose binary digits are the given bits, the lowest first. -/
def weight (bits : List Bool) : Nat := bits.foldr (fun b n => (if b then 1 else 0) + 2 * n) 0

theorem weight_cons (b : Bool) (bits : List Bool) :
    weight (b :: bits) = (if b then 1 else 0) + 2 * weight bits := rfl

theorem weight_lt (bits : List Bool) : weight bits < Nat.pow 2 bits.length := by
  induction bits with
  | nil => exact Nat.one_pos
  | cons b bits ih =>
    have : Nat.pow 2 (bits.length + 1) = Nat.pow 2 bits.length * 2 := rfl
    rw [weight_cons, List.length_cons, this]
    split <;> omega

theorem testBit_weight (bits : List Bool) (i : Nat) :
    (weight bits).testBit i = bits[i]?.getD false := by
  induction bits generalizing i with
  | nil => simp [weight]
  | cons b bits ih =>
    rw [weight_cons]
    cases i with
    | zero => cases b <;> simp [Nat.testBit_zero]
    | succ i =>
      rw [Nat.testBit_succ, show ((if b then 1 else 0) + 2 * weight bits) / 2 = weight bits by
        split <;> omega, ih, List.getElem?_cons_succ]

theorem toNat_packByte {bits : List Bool} (h : bits.length ≤ 8) :
    (packByte bits).toNat = weight bits := by
  have h1 := weight_lt bits
  have h2 : Nat.pow 2 bits.length ≤ 256 := Nat.pow_le_pow_right (by decide) h
  exact Utf8.toNat_ofNat_of_lt (show weight bits < 256 by omega)

@[simp] theorem length_unpackByte (b : UInt8) : (unpackByte b).length = 8 := by simp [unpackByte]

@[simp] theorem length_unpackBits (bytes : Bytes) : (unpackBits bytes).length = 8 * bytes.length := by
  induction bytes with
  | nil => rfl
  | cons b bytes ih =>
    rw [unpackBits, List.flatMap_cons, List.length_append, ← unpackBits, ih, length_unpackByte,
      List.length_cons]
    omega

theorem unpackBits_append (a b : Bytes) : unpackBits (a ++ b) = unpackBits a ++ unpackBits b :=
  List.flatMap_append

theorem take_unpackByte_packByte {bits : List Bool} (h : bits.length ≤ 8) :
    (unpackByte (packByte bits)).take bits.length = bits := by
  apply List.ext_getElem
  · simp; omega
  · intro i h1 h2
    simp only [unpackByte, toNat_packByte h, List.getElem_take, List.getElem_map,
      List.getElem_range, testBit_weight, List.getElem?_eq_getElem h2, Option.getD_some]

/-- Bits are read back from the bytes that hold them. -/
theorem take_unpackBits_packBits (bits : List Bool) :
    (unpackBits (packBits bits)).take bits.length = bits := by
  fun_induction packBits bits with
  | case1 bits h => simp_all
  | case2 bits h ih =>
    have hb := take_unpackByte_packByte (List.length_take_le 8 bits)
    rw [List.length_take] at hb
    rw [unpackBits, List.flatMap_cons, List.take_append, length_unpackByte, ← List.length_drop]
    rw [unpackBits] at ih
    rw [ih, List.take_eq_take_min, length_unpackByte, Nat.min_comm, hb, List.take_append_drop]

theorem length_packBits (bits : List Bool) : (packBits bits).length = bitmapSize bits.length := by
  fun_induction packBits bits with
  | case1 bits h => simp_all [bitmapSize]
  | case2 bits h ih =>
    have : 0 < bits.length := List.length_pos_iff.mpr (by simpa using h)
    rw [List.length_cons, ih, List.length_drop, bitmapSize, bitmapSize]
    omega

/-! ### Counts and values -/

theorem takeCount_encodeCount {n : Nat} {bytes : Bytes} (h : encodeCount n = .ok bytes)
    (what : String) (rest : Bytes) : takeCount what (bytes ++ rest) = .ok (n, rest) := by
  rw [encodeCount] at h
  split at h
  · rename_i hn
    injection h with h
    have : (UInt32.ofNat n).toNat = n := by rw [UInt32.toNat_ofNat']; omega
    subst h
    simp [takeCount, takeWord, Bytes.word32?_le32, this, hn]
  · simp at h

theorem takeCount_of_encodeCount {n : Nat} {bytes : Bytes} (h : encodeCount n = .ok bytes)
    (what : String) : takeCount what bytes = .ok (n, []) := by
  have hread := takeCount_encodeCount h what []
  rwa [List.append_nil] at hread

/-- Texts whose length fits into the word that carries it, and everything that is no text. -/
def Countable : Value → Prop
  | .utf8 s => (Utf8.encode s).length < 0x80000000
  | _ => True

instance (v : Value) : Decidable (Countable v) := by
  unfold Countable
  split <;> infer_instance

theorem encodeCount_of_lt {n : Nat} (h : n < 0x80000000) :
    encodeCount n = .ok (Bytes.le32 (UInt32.ofNat n)) := if_pos h

theorem encodeValue_isOk {t : DataType} {v : Value} (ht : v.conformsTo t) (hv : v.isNull = false)
    (hc : Countable v) : ∃ bytes, encodeValue t v = .ok bytes := by
  cases v with
  | null => simp [Value.isNull] at hv
  | utf8 s =>
    obtain rfl : .utf8 = t := by simpa [Value.conformsTo, Value.dataType] using ht
    exact ⟨_, by simp only [encodeValue, encodeCount_of_lt hc]; rfl⟩
  | boolean | int32 | int64 | float32 | float64 | date | timestamp =>
    simp only [Value.conformsTo, Value.dataType, beq_iff_eq] at ht
    subst ht
    exact ⟨_, rfl⟩

/-- A value is read as it was written, whatever follows it. -/
theorem takeValue_encodeValue {t : DataType} {v : Value} {bytes : Bytes}
    (h : encodeValue t v = .ok bytes) (rest : Bytes) :
    takeValue t (bytes ++ rest) = .ok (v, rest) := by
  rw [encodeValue.eq_def] at h
  split at h
  case h_1 b =>
    injection h with h
    subst h
    cases b <;> rfl
  case h_6 s =>
    obtain ⟨count, hn, h⟩ := Result.bind_eq_ok.mp h
    injection h with h
    subst h
    rw [List.append_assoc]
    simp [takeValue, takeCount_encodeCount hn, take, Bytes.split?_append, Utf8.decode_encode]
  case h_9 => simp at h
  all_goals
    injection h with h
    subst h
    simp [takeValue, takeWord, takeLong, Bytes.word32?_le32, Bytes.word64?_le64]

/-! ### Columns -/

theorem encodeValues_isOk {values : List Value} {t : DataType} (ht : ∀ v ∈ values, v.conformsTo t)
    (hc : ∀ v ∈ values, Countable v) : ∃ bytes, encodeValues t values = .ok bytes := by
  induction values with
  | nil => exact ⟨[], rfl⟩
  | cons v vs ih =>
    obtain ⟨rest, hr⟩ := ih (fun v hv => ht v (List.mem_cons_of_mem _ hv))
      fun v hv => hc v (List.mem_cons_of_mem _ hv)
    cases hv : v.isNull with
    | true => exact ⟨rest, by simp [encodeValues, hv, hr]⟩
    | false =>
      obtain ⟨bytes, hb⟩ :=
        encodeValue_isOk (ht v List.mem_cons_self) hv (hc v List.mem_cons_self)
      exact ⟨bytes ++ rest, by simp [encodeValues, hv, hr, hb]⟩

/-- The present values of a column are read as they were written, by the bits that say which
are present. -/
theorem takeValues_encodeValues (field : Field) {values : List Value} {bytes : Bytes}
    (h : encodeValues field.dataType values = .ok bytes)
    (hn : ∀ v ∈ values, v.isNull → field.nullable) :
    takeValues field (values.map fun v => !v.isNull) bytes = .ok (values, []) := by
  induction values generalizing bytes with
  | nil =>
    injection h with h
    rw [← h]
    rfl
  | cons v vs ih =>
    have ih {bytes : Bytes} (h : encodeValues field.dataType vs = .ok bytes) :=
      ih h fun v hv => hn v (List.mem_cons_of_mem _ hv)
    rw [encodeValues] at h
    split at h
    · rename_i hv
      obtain rfl : v = .null := by cases v <;> simp [Value.isNull] at hv ⊢
      simp [hv, takeValues, ih h, hn .null List.mem_cons_self hv]
    · rename_i hv
      obtain ⟨front, hf, h⟩ := Result.bind_eq_ok.mp h
      obtain ⟨rest, hr, h⟩ := Result.bind_eq_ok.mp h
      injection h with h
      subst h
      simp [hv, takeValues, takeValue_encodeValue hf, ih hr]

/-- A column can be written if its values have its type and nothing in it is too long. -/
theorem encode_isOk {values : List Value} {t : DataType} (ht : ∀ v ∈ values, v.conformsTo t)
    (hc : ∀ v ∈ values, Countable v) (hl : values.length < 0x80000000) :
    ∃ bitmap data, encode values t = .ok (bitmap, data) := by
  obtain ⟨bytes, hb⟩ := encodeValues_isOk ht hc
  have hm : (values.map fun v => !v.isNull).count true ≤ values.length := by
    simpa using List.count_le_length (a := true) (l := values.map fun v => !v.isNull)
  exact ⟨_, _, by
    simp only [encode, encodeCount_of_lt hl, hb, encodeCount_of_lt (Nat.lt_of_le_of_lt hm hl)]
    rfl⟩

/-- Nothing that was written is too long to be counted. -/
theorem lt_of_encodeCount {n : Nat} {bytes : Bytes} (h : encodeCount n = .ok bytes) :
    n < 0x80000000 := by
  rw [encodeCount] at h
  split at h
  · assumption
  · cases h

theorem countable_of_encodeValue {t : DataType} {v : Value} {bytes : Bytes}
    (h : encodeValue t v = .ok bytes) : Countable v := by
  cases v with
  | utf8 s =>
    cases t with
    | utf8 =>
      obtain ⟨count, hcount, -⟩ := Result.bind_eq_ok.mp h
      exact lt_of_encodeCount hcount
    | boolean | int32 | int64 | float32 | float64 | date | timestamp => cases h
  | null | boolean | int32 | int64 | float32 | float64 | date | timestamp => trivial

theorem countable_of_encodeValues {t : DataType} {values : List Value} {bytes : Bytes}
    (h : encodeValues t values = .ok bytes) : ∀ v ∈ values, Countable v := by
  induction values generalizing bytes with
  | nil => exact fun v hv => absurd hv List.not_mem_nil
  | cons v vs ih =>
    rw [encodeValues] at h
    split at h
    · rename_i hnull
      obtain rfl : v = .null := by cases v <;> first | rfl | cases hnull
      exact List.forall_mem_cons.mpr ⟨trivial, ih h⟩
    · obtain ⟨front, hfront, h⟩ := Result.bind_eq_ok.mp h
      obtain ⟨rest, hrest, -⟩ := Result.bind_eq_ok.mp h
      exact List.forall_mem_cons.mpr ⟨countable_of_encodeValue hfront, ih hrest⟩

theorem countable_of_encode {t : DataType} {values : List Value} {bitmap data : Bytes}
    (h : encode values t = .ok (bitmap, data)) : ∀ v ∈ values, Countable v := by
  obtain ⟨rows, -, h⟩ := Result.bind_eq_ok.mp h
  obtain ⟨bytes, hvalues, -⟩ := Result.bind_eq_ok.mp h
  exact countable_of_encodeValues hvalues

/-- A column is read as it was written. -/
theorem decode_encode (field : Field) {values : List Value} {bitmap data : Bytes}
    (h : encode values field.dataType = .ok (bitmap, data))
    (hn : ∀ v ∈ values, v.isNull → field.nullable) :
    decode field values.length bitmap data = .ok values := by
  obtain ⟨rows, hrows, h⟩ := Result.bind_eq_ok.mp h
  obtain ⟨bytes, hb, h⟩ := Result.bind_eq_ok.mp h
  obtain ⟨count, hcount, h⟩ := Result.bind_eq_ok.mp h
  injection h with h
  obtain ⟨rfl, rfl⟩ := Prod.mk.inj h
  have hp := take_unpackBits_packBits (values.map fun v => !v.isNull)
  have hs := Bytes.split?_append (packBits (values.map fun v => !v.isNull)) []
  rw [length_packBits, List.length_map, List.append_nil] at hs
  rw [List.length_map] at hp
  simp [decode, takeCount_encodeCount hrows, takeCount_encodeCount hcount, take, hs, hp,
    takeValues_encodeValues field hb hn]

/-- What a column that could be read says: the bitmap has as many flags as there are rows, and
bytes for them, there are as many values as it marks, and nothing is behind them. -/
theorem decode_eq_ok {field : Field} {rows : Nat} {bitmap values : Bytes} {column : List Value}
    (h : decode field rows bitmap values = .ok column) :
    ∃ packed bits rest declared data,
      takeCount "bitmap length" bitmap = .ok (rows, packed) ∧
      take (bitmapSize rows) packed = .ok (bits, rest) ∧
      takeCount "value count" values = .ok (declared, data) ∧
      takeValues field ((unpackBits bits).take rows) data = .ok (column, []) ∧
      ((unpackBits bits).take rows).count true = declared := by
  obtain ⟨⟨flags, packed⟩, hflags, h⟩ := Result.bind_eq_ok.mp h
  dsimp only at h
  split at h
  · cases h
  rename_i hrows
  obtain rfl := Decidable.not_not.mp hrows
  obtain ⟨⟨bits, rest⟩, hbits, h⟩ := Result.bind_eq_ok.mp h
  obtain ⟨⟨declared, data⟩, hdeclared, h⟩ := Result.bind_eq_ok.mp h
  obtain ⟨⟨found, left⟩, hfound, h⟩ := Result.bind_eq_ok.mp h
  dsimp only at h
  split at h
  · cases h
  rename_i hcount
  cases h
  rw [not_or, Decidable.not_not, Decidable.not_not] at hcount
  obtain ⟨hmarked, rfl⟩ := hcount
  exact ⟨packed, bits, rest, declared, data, hflags, hbits, hdeclared, hfound, hmarked⟩

end StagedQuery.Column

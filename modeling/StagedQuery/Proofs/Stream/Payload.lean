import Mathlib.Data.List.Forall2
import StagedQuery.Proofs.RowGroup
import StagedQuery.Proofs.Stream.Column
import StagedQuery.Stream.Reader

/-!
# What columns are read from

A number, a text and a value are read from the bytes that are written for them and from no others,
but for `true`, which any byte but zero stands for (`Column.Spells`). So it is known what the two
payloads of a column are once they were accepted (`Column.decode_eq_ok_iff`): the values are their
number and their bytes, one value after the other, and whatever comes behind them makes them
refused. Of the bitmap this holds only as far as it goes: behind the flags, nothing is looked at,
and a bitmap with more bytes than its rows need is accepted (`Column.accepts_long_bitmap`).
-/

namespace StagedQuery

namespace Bytes

theorem le32_word32 (a b c d : UInt8) : le32 (word32 a b c d) = [a, b, c, d] := by
  have ha := a.toNat_lt
  have hb := b.toNat_lt
  have hc := c.toNat_lt
  have hd := d.toNat_lt
  have hw : (word32 a b c d).toNat =
      a.toNat + 0x100 * b.toNat + 0x10000 * c.toNat + 0x1000000 * d.toNat := by
    rw [word32, UInt32.toNat_ofNat']
    omega
  simp only [le32, hw, List.cons.injEq, and_true, ← UInt8.toNat_inj, UInt8.toNat_ofNat']
  omega

theorem le64_word64 (low high : UInt32) : le64 (word64 low high) = le32 low ++ le32 high := by
  have hlow := low.toNat_lt
  have hhigh := high.toNat_lt
  have hw : (word64 low high).toNat = low.toNat + 0x100000000 * high.toNat := by
    rw [word64, UInt64.toNat_ofNat']
    omega
  have hfirst : UInt32.ofNat (low.toNat + 0x100000000 * high.toNat) = low := by
    apply UInt32.toNat_inj.mp
    rw [UInt32.toNat_ofNat']
    omega
  have hsecond : UInt32.ofNat ((low.toNat + 0x100000000 * high.toNat) / 0x100000000) = high := by
    apply UInt32.toNat_inj.mp
    rw [UInt32.toNat_ofNat']
    omega
  rw [le64, hw, hfirst, hsecond]

/-- A word is read from its four bytes and from no others. -/
theorem word32?_eq_some {bytes rest : Bytes} {w : UInt32} :
    word32? bytes = some (w, rest) ↔ bytes = le32 w ++ rest := by
  constructor
  · intro h
    rw [word32?.eq_def] at h
    split at h
    · cases h
      rw [le32_word32]
      rfl
    · cases h
  · rintro rfl
    exact word32?_le32 w rest

theorem word64?_eq_some {bytes rest : Bytes} {w : UInt64} :
    word64? bytes = some (w, rest) ↔ bytes = le64 w ++ rest := by
  constructor
  · intro h
    obtain ⟨⟨low, more⟩, hlow, h⟩ := Option.bind_eq_some_iff.mp h
    obtain ⟨⟨high, left⟩, hhigh, h⟩ := Option.bind_eq_some_iff.mp h
    cases h
    rw [word32?_eq_some.mp hlow, word32?_eq_some.mp hhigh, le64_word64, List.append_assoc]
  · rintro rfl
    exact word64?_le64 w rest

end Bytes

namespace Column

variable {field : Field} {t : DataType} {bytes rest front : Bytes} {v : Value} {n : Nat}

theorem take_eq_ok :
    take n bytes = .ok (front, rest) ↔ front.length = n ∧ bytes = front ++ rest := by
  rw [take]
  constructor
  · intro h
    split at h
    · rename_i hsplit
      cases h
      exact Bytes.split?_eq_some hsplit
    · cases h
  · rintro ⟨rfl, rfl⟩
    rw [Bytes.split?_append]

theorem takeWord_eq_ok {w : UInt32} :
    takeWord bytes = .ok (w, rest) ↔ bytes = Bytes.le32 w ++ rest := by
  rw [takeWord, ← Bytes.word32?_eq_some]
  cases Bytes.word32? bytes <;> simp

theorem takeLong_eq_ok {w : UInt64} :
    takeLong bytes = .ok (w, rest) ↔ bytes = Bytes.le64 w ++ rest := by
  rw [takeLong, ← Bytes.word64?_eq_some]
  cases Bytes.word64? bytes <;> simp

/-- A count is read from what is written for it and from nothing else. -/
theorem takeCount_eq_ok {what : String} : takeCount what bytes = .ok (n, rest) ↔
    ∃ count, encodeCount n = .ok count ∧ bytes = count ++ rest := by
  constructor
  · intro h
    obtain ⟨⟨w, more⟩, hw, h⟩ := Result.bind_eq_ok.mp h
    dsimp only at h
    split at h
    · rename_i hlt
      cases h
      have hcount := encodeCount_of_lt hlt
      rw [UInt32.ofNat_toNat] at hcount
      exact ⟨_, hcount, takeWord_eq_ok.mp hw⟩
    · cases h
  · rintro ⟨count, hcount, rfl⟩
    exact takeCount_encodeCount hcount what rest

/-! ### Values -/

/-- The bytes of a value that is there, in a column of the type. -/
inductive Spells (t : DataType) : Value → Bytes → Prop
  /-- What is written for a value. -/
  | written {v : Value} {bytes : Bytes} (h : encodeValue t v = .ok bytes) : Spells t v bytes
  /-- Every byte but zero is true. -/
  | truth {b : UInt8} (ht : t = .boolean) (hb : b ≠ 0) : Spells t (.boolean true) [b]

/-- A value is read from its bytes, and from no others. -/
theorem takeValue_eq_ok : takeValue t bytes = .ok (v, rest) ↔
    ∃ front, Spells t v front ∧ bytes = front ++ rest := by
  constructor
  · intro h
    cases t with
    | boolean =>
      cases bytes with
      | nil => cases h
      | cons b bytes =>
        cases h
        by_cases hb : b = 0
        · subst hb
          exact ⟨[0], .written rfl, rfl⟩
        · have htrue : (b != 0) = true := bne_iff_ne.mpr hb
          exact ⟨[b], htrue ▸ .truth rfl hb, rfl⟩
    | utf8 =>
      obtain ⟨⟨n, more⟩, hcount, h⟩ := Result.bind_eq_ok.mp h
      obtain ⟨⟨text, left⟩, htext, h⟩ := Result.bind_eq_ok.mp h
      dsimp only at h
      split at h
      · rename_i s hs
        cases h
        obtain ⟨count, hn, rfl⟩ := takeCount_eq_ok.mp hcount
        obtain ⟨rfl, rfl⟩ := take_eq_ok.mp htext
        obtain rfl := Utf8.decode_eq_ok_iff.mp hs
        refine ⟨count ++ Utf8.encode s, .written ?_, (List.append_assoc ..).symm⟩
        simp only [encodeValue, hn]
        rfl
      · cases h
    | int32 | float32 =>
      obtain ⟨⟨w, more⟩, hw, h⟩ := Result.bind_eq_ok.mp h
      cases h
      exact ⟨_, .written rfl, by simpa using takeWord_eq_ok.mp hw⟩
    | int64 | float64 | date | timestamp =>
      obtain ⟨⟨w, more⟩, hw, h⟩ := Result.bind_eq_ok.mp h
      cases h
      exact ⟨_, .written rfl, by simpa using takeLong_eq_ok.mp hw⟩
  · rintro ⟨front, hspells, rfl⟩
    cases hspells with
    | written h => exact takeValue_encodeValue h rest
    | @truth b ht hb =>
      subst ht
      have htrue : (b != 0) = true := bne_iff_ne.mpr hb
      rw [List.singleton_append, takeValue, htrue]

theorem Spells.present {front : Bytes} (h : Spells t v front) : v.isNull = false := by
  cases h with
  | written h =>
    cases v with
    | null => cases t <;> cases h
    | _ => rfl
  | truth => rfl

theorem Spells.conforms {front : Bytes} (h : Spells t v front) : v.conformsTo t := by
  cases h with
  | written h =>
    rw [encodeValue.eq_def] at h
    split at h
    case h_9 => cases h
    all_goals rfl
  | truth ht => exact ht ▸ rfl

theorem conforms_of_spells {vs : List Value} {parts : List Bytes}
    (h : List.Forall₂ (Spells t) vs parts) : ∀ v ∈ vs, v.conformsTo t := by
  induction h with
  | nil => exact nofun
  | cons hspells _ ih => exact List.forall_mem_cons.mpr ⟨hspells.conforms, ih⟩

/-! ### Columns -/

/-- The values of a column that are there. -/
def present (column : List Value) : List Value := column.filter fun v => !v.isNull

theorem present_cons (h : v.isNull = false) (column : List Value) :
    present (v :: column) = v :: present column := by
  rw [present, List.filter_cons_of_pos (by rw [h]; rfl), present]

theorem length_present (column : List Value) :
    (present column).length = (column.map fun v => !v.isNull).count true := by
  rw [present, ← List.countP_eq_length_filter, List.count, List.countP_map]
  congr 1
  funext v
  cases v <;> rfl

theorem takeValues_absent {bits : List Bool} {column : List Value} :
    takeValues field (false :: bits) bytes = .ok (column, rest) ↔
      field.nullable ∧
        ∃ vs, takeValues field bits bytes = .ok (vs, rest) ∧ column = .null :: vs := by
  rw [takeValues]
  cases field.nullable with
  | false => simp
  | true =>
    simp only [if_true, true_and]
    constructor
    · intro h
      obtain ⟨⟨vs, left⟩, hvalues, h⟩ := Result.bind_eq_ok.mp h
      cases h
      exact ⟨vs, hvalues, rfl⟩
    · rintro ⟨vs, hvalues, rfl⟩
      exact Result.bind_eq_ok.mpr ⟨_, hvalues, rfl⟩

theorem takeValues_present {bits : List Bool} {column : List Value} :
    takeValues field (true :: bits) bytes = .ok (column, rest) ↔
      ∃ v vs more, takeValue field.dataType bytes = .ok (v, more) ∧
        takeValues field bits more = .ok (vs, rest) ∧ column = v :: vs := by
  rw [takeValues]
  constructor
  · intro h
    obtain ⟨⟨v, more⟩, hvalue, h⟩ := Result.bind_eq_ok.mp h
    obtain ⟨⟨vs, left⟩, hvalues, h⟩ := Result.bind_eq_ok.mp h
    cases h
    exact ⟨v, vs, more, hvalue, hvalues, rfl⟩
  · rintro ⟨v, vs, more, hvalue, hvalues, rfl⟩
    exact Result.bind_eq_ok.mpr ⟨_, hvalue, Result.bind_eq_ok.mpr ⟨_, hvalues, rfl⟩⟩

/-- Rows are read by the flags that mark them: an absent value from nothing, if the field admits it,
and a value that is there from its bytes. -/
theorem takeValues_eq_ok {bits : List Bool} {column : List Value} :
    takeValues field bits bytes = .ok (column, rest) ↔
      (column.map fun v => !v.isNull) = bits ∧ (∀ v ∈ column, v.isNull → field.nullable) ∧
        ∃ parts, List.Forall₂ (Spells field.dataType) (present column) parts ∧
          bytes = parts.flatten ++ rest := by
  induction bits generalizing bytes column with
  | nil =>
    constructor
    · rintro ⟨⟩
      exact ⟨rfl, fun v hv => absurd hv List.not_mem_nil, [], .nil, rfl⟩
    · rintro ⟨hbits, -, parts, hparts, rfl⟩
      obtain rfl := List.map_eq_nil_iff.mp hbits
      cases hparts
      rfl
  | cons bit bits ih =>
    cases bit with
    | false =>
      rw [takeValues_absent]
      constructor
      · rintro ⟨hnullable, vs, hvalues, rfl⟩
        obtain ⟨rfl, hnull, hparts⟩ := ih.mp hvalues
        exact ⟨rfl, List.forall_mem_cons.mpr ⟨fun _ => hnullable, hnull⟩, hparts⟩
      · rintro ⟨hbits, hnull, hparts⟩
        obtain ⟨v, vs, rfl, hv, hvs⟩ := List.map_eq_cons_iff.mp hbits
        obtain ⟨hfirst, hothers⟩ := List.forall_mem_cons.mp hnull
        cases v with
        | null => exact ⟨hfirst rfl, vs, ih.mpr ⟨hvs, hothers, hparts⟩, rfl⟩
        | _ => cases hv
    | true =>
      rw [takeValues_present]
      constructor
      · rintro ⟨v, vs, more, hvalue, hvalues, rfl⟩
        obtain ⟨front, hspells, rfl⟩ := takeValue_eq_ok.mp hvalue
        obtain ⟨rfl, hnull, parts, hparts, rfl⟩ := ih.mp hvalues
        have hthere := hspells.present
        refine ⟨by rw [List.map_cons, hthere, Bool.not_false], ?_, front :: parts, ?_, ?_⟩
        · exact List.forall_mem_cons.mpr ⟨fun h => absurd (hthere.symm.trans h) (by decide), hnull⟩
        · rw [present_cons hthere]
          exact .cons hspells hparts
        · rw [List.flatten_cons, List.append_assoc]
      · rintro ⟨hbits, hnull, parts, hparts, rfl⟩
        obtain ⟨v, vs, rfl, hv, hvs⟩ := List.map_eq_cons_iff.mp hbits
        rw [present_cons ((Bool.not_eq_true' _).mp hv)] at hparts
        obtain _ | ⟨hspells, hparts⟩ := hparts
        refine ⟨v, vs, _, takeValue_eq_ok.mpr ⟨_, hspells, List.append_assoc ..⟩, ?_, rfl⟩
        exact ih.mpr ⟨hvs, (List.forall_mem_cons.mp hnull).2, _, hparts, rfl⟩

/-- The two payloads of a column, with `unread` behind the flags. -/
structure Holds (field : Field) (column : List Value) (bitmap values unread : Bytes) : Prop where
  /-- Absent values stand only where the field admits them. -/
  nullable : ∀ v ∈ column, v.isNull → field.nullable
  /-- The number of rows, and a flag for each row that says whether there is a value. -/
  flags : ∃ count packed, encodeCount column.length = .ok count ∧
    packed.length = bitmapSize column.length ∧
    (unpackBits packed).take column.length = (column.map fun v => !v.isNull) ∧
    bitmap = count ++ packed ++ unread
  /-- The number of values, and their bytes, one value after the other. -/
  data : ∃ count parts, encodeCount (present column).length = .ok count ∧
    List.Forall₂ (Spells field.dataType) (present column) parts ∧
    values = count ++ parts.flatten

/-- A column that payloads hold is one that the field admits. -/
theorem Holds.admits {column : List Value} {bitmap values unread : Bytes}
    (h : Holds field column bitmap values unread) : field.Admits column.length column := by
  obtain ⟨-, parts, -, hparts, -⟩ := h.data
  refine ⟨rfl, fun v hv => Field.check_eq_ok.mpr ⟨h.nullable v hv, ?_⟩⟩
  cases hnull : v.isNull with
  | true => cases v <;> first | rfl | cases hnull
  | false => exact conforms_of_spells hparts v (List.mem_filter.mpr ⟨hv, by rw [hnull]; rfl⟩)

/-- What is made of the parts of the two payloads: `left` is what no row took. -/
theorem decode_eq {rows declared : Nat} {bitmap values more packed unread data left : Bytes}
    {column : List Value} (hflags : takeCount "bitmap length" bitmap = .ok (rows, more))
    (hpacked : take (bitmapSize rows) more = .ok (packed, unread))
    (hdeclared : takeCount "value count" values = .ok (declared, data))
    (hvalues : takeValues field ((unpackBits packed).take rows) data = .ok (column, left)) :
    decode field rows bitmap values =
      let marked := ((unpackBits packed).take rows).count true
      if marked ≠ declared ∨ left ≠ [] then
        .error (.valueCount field.name declared marked)
      else .ok column := by
  rw [decode, hflags]
  simp only [Result.ok_bind, ne_eq, not_true_eq_false, if_false, hpacked, hdeclared, hvalues,
    Result.throw_eq, Result.pure_eq]
  split
  · rfl
  · rfl

/-- What is read of a column that holds, whatever follows its values. -/
theorem Holds.decode_append {column : List Value} {bitmap values unread : Bytes}
    (h : Holds field column bitmap values unread) (extra : Bytes) :
    decode field column.length bitmap (values ++ extra) =
      if extra = [] then .ok column
      else .error (.valueCount field.name (present column).length (present column).length) := by
  obtain ⟨count, packed, hcount, hpacked, hmarks, rfl⟩ := h.flags
  obtain ⟨total, parts, htotal, hparts, rfl⟩ := h.data
  have hflags : takeCount "bitmap length" (count ++ packed ++ unread) =
      .ok (column.length, packed ++ unread) :=
    takeCount_eq_ok.mpr ⟨count, hcount, List.append_assoc count packed unread⟩
  have hdeclared : takeCount "value count" (total ++ parts.flatten ++ extra) =
      .ok ((present column).length, parts.flatten ++ extra) :=
    takeCount_eq_ok.mpr ⟨total, htotal, List.append_assoc total parts.flatten extra⟩
  have hvalues : takeValues field ((unpackBits packed).take column.length)
      (parts.flatten ++ extra) = .ok (column, extra) :=
    takeValues_eq_ok.mpr ⟨hmarks.symm, h.nullable, parts, hparts, rfl⟩
  rw [decode_eq hflags (take_eq_ok.mpr ⟨hpacked, rfl⟩) hdeclared hvalues, hmarks, ← length_present]
  by_cases hextra : extra = []
  · simp [hextra]
  · simp [hextra]

/-- A column is read from payloads that hold it, and from no others. -/
theorem decode_eq_ok_iff {rows : Nat} {bitmap values : Bytes} {column : List Value} :
    decode field rows bitmap values = .ok column ↔
      column.length = rows ∧ ∃ unread, Holds field column bitmap values unread := by
  constructor
  · intro h
    obtain ⟨more, packed, unread, declared, data, hflags, hpacked, hdeclared, hvalues, hmarked⟩ :=
      decode_eq_ok h
    obtain ⟨count, hcount, rfl⟩ := takeCount_eq_ok.mp hflags
    obtain ⟨hsize, rfl⟩ := take_eq_ok.mp hpacked
    obtain ⟨total, htotal, rfl⟩ := takeCount_eq_ok.mp hdeclared
    obtain ⟨hmarks, hnullable, parts, hparts, rfl⟩ := takeValues_eq_ok.mp hvalues
    have hlength : column.length = rows := by
      have hbits := congrArg List.length hmarks
      rw [List.length_map, List.length_take, length_unpackBits, hsize, bitmapSize] at hbits
      omega
    subst hlength
    refine ⟨rfl, unread, hnullable, ⟨count, packed, hcount, hsize, hmarks.symm, ?_⟩,
      total, parts, ?_, hparts, ?_⟩
    · rw [List.append_assoc]
    · rwa [length_present, hmarks, hmarked]
    · rw [List.append_nil]
  · rintro ⟨rfl, unread, h⟩
    have hread := h.decode_append []
    rwa [List.append_nil, if_pos rfl] at hread

/-- A column that is read has an entry for each row, and its field admits them all. -/
theorem decode_admits {rows : Nat} {bitmap values : Bytes} {column : List Value}
    (h : decode field rows bitmap values = .ok column) : field.Admits rows column := by
  obtain ⟨rfl, unread, hholds⟩ := decode_eq_ok_iff.mp h
  exact hholds.admits

end Column

namespace RowReader

theorem rowCount_encodeCount {n : Nat} {bytes : Bytes} (h : Column.encodeCount n = .ok bytes) :
    rowCount bytes = .ok n := by
  rw [rowCount, Column.takeCount_of_encodeCount h]
  rfl

/-- A row count is read from what is written for it and from nothing else. -/
theorem rowCount_eq_ok {message : Bytes} {n : Nat} :
    rowCount message = .ok n ↔ Column.encodeCount n = .ok message := by
  constructor
  · intro h
    obtain ⟨⟨count, rest⟩, hcount, h⟩ := Result.bind_eq_ok.mp h
    dsimp only at h
    split at h
    · cases h
    rename_i hrest
    cases h
    obtain rfl := not_not.mp hrest
    obtain ⟨bytes, hbytes, rfl⟩ := Column.takeCount_eq_ok.mp hcount
    rwa [List.append_nil]
  · exact rowCount_encodeCount

end RowReader

namespace Column

theorem length_of_encodeCount {n : Nat} {count : Bytes} (h : encodeCount n = .ok count) :
    count.length = 4 := by
  rw [encodeCount_of_lt (lt_of_encodeCount h)] at h
  cases h
  rfl

/-- What payloads are accepted for, and what is left of them:

* a column is accepted exactly from payloads that hold it, with as many rows as were announced;
* the bitmap then is a count and a byte for every eight rows, at least; and nothing is left of the
  values, for with any byte behind them they are refused;
* a row count, too, is read to its last byte. -/
theorem payloads_of_decode (field : Field) (rows : Nat) (bitmap values : Bytes)
    (column : List Value) :
    (decode field rows bitmap values = .ok column ↔
      column.length = rows ∧ ∃ unread, Holds field column bitmap values unread) ∧
    (decode field rows bitmap values = .ok column → 4 + bitmapSize rows ≤ bitmap.length ∧
      ∀ extra ≠ [], decode field rows bitmap (values ++ extra) =
        .error (.valueCount field.name (present column).length (present column).length)) ∧
    ∀ (message : Bytes) (n : Nat),
      RowReader.rowCount message = .ok n ↔ encodeCount n = .ok message := by
  refine ⟨decode_eq_ok_iff, fun h => ?_, fun _ _ => RowReader.rowCount_eq_ok⟩
  obtain ⟨rfl, unread, hholds⟩ := decode_eq_ok_iff.mp h
  constructor
  · obtain ⟨count, packed, hcount, hpacked, -, rfl⟩ := hholds.flags
    simp only [List.length_append, length_of_encodeCount hcount, hpacked]
    omega
  · intro extra hextra
    rw [hholds.decode_append extra, if_neg hextra]

/-- An absent value, and a text of one character. -/
theorem payloads_of_decode_text :
    decode ⟨"t", .utf8, true⟩ 2 [2, 0, 0, 0, 2] [1, 0, 0, 0, 1, 0, 0, 0, 97] =
        .ok [.null, .utf8 "a"] ∧
      ∃ unread, Holds ⟨"t", .utf8, true⟩ [.null, .utf8 "a"] [2, 0, 0, 0, 2]
        [1, 0, 0, 0, 1, 0, 0, 0, 97] unread := by
  have hdecode : decode ⟨"t", .utf8, true⟩ 2 [2, 0, 0, 0, 2] [1, 0, 0, 0, 1, 0, 0, 0, 97] =
      .ok [.null, .utf8 "a"] := by decide +kernel
  exact ⟨hdecode, ((payloads_of_decode ..).1.mp hdecode).2⟩

/-- One flag, and a byte behind it: the bitmap is longer than its row needs, and it is accepted. -/
theorem accepts_long_bitmap :
    ¬ ∀ (field : Field) (rows : Nat) (bitmap values : Bytes) (column : List Value),
      decode field rows bitmap values = .ok column → bitmap.length = 4 + bitmapSize rows := by
  intro hall
  have hdecode : decode ⟨"n", .int32, false⟩ 1 [1, 0, 0, 0, 1, 0] [1, 0, 0, 0, 7, 0, 0, 0] =
      .ok [.int32 7] := by decide +kernel
  have hlength := hall _ _ _ _ _ hdecode
  exact absurd hlength (by decide)

end Column

end StagedQuery

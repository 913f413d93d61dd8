import StagedQuery.Proofs.Stream.Payload

/-!
# Columns are written as they were read

A column that was read can be written again, and its payloads say the same: the count and the flags
of the bitmap, the count and the bytes of the values. What reading does not look at is not kept
(`Column.Holds.encode_eq`): a byte that stands for `true` is written as one, and behind the last
flag there is nothing but the zeros that fill its byte.

So it is known which payloads are read alike: two pairs of payloads are read as the same column
exactly if they have the same flags and, but for the bytes that stand for `true`, the same bytes of
values (`Column.eq_iff_of_decode`).
-/

namespace StagedQuery.Column

variable {field : Field} {t : DataType} {bytes bitmap values unread : Bytes} {v : Value}
  {column : List Value} {rows : Nat}

/-! ### Values -/

/-- The bytes of values of a type, those that stand for `true` as one. -/
def plain (t : DataType) (bytes : Bytes) : Bytes :=
  if t = .boolean then bytes.map fun b => if b = 0 then 0 else 1 else bytes

theorem plain_of_ne (h : t ≠ .boolean) (bytes : Bytes) : plain t bytes = bytes := if_neg h

theorem plain_nil (t : DataType) : plain t [] = [] := by
  rw [plain]
  split <;> rfl

theorem plain_append (t : DataType) (a b : Bytes) : plain t (a ++ b) = plain t a ++ plain t b := by
  rw [plain, plain, plain]
  split
  · exact List.map_append
  · rfl

theorem plain_of_encodeValue (h : encodeValue t v = .ok bytes) : plain t bytes = bytes := by
  by_cases ht : t = .boolean
  · subst ht
    cases v with
    | boolean b =>
      cases h
      cases b <;> rfl
    | _ => cases h
  · exact plain_of_ne ht bytes

/-- A value is written by the bytes that it was read from, made plain. -/
theorem Spells.encodeValue_eq (h : Spells t v bytes) : encodeValue t v = .ok (plain t bytes) := by
  cases h with
  | written h => rw [plain_of_encodeValue h, h]
  | @truth b ht hb =>
    subst ht
    rw [plain, if_pos rfl, List.map_singleton, if_neg hb]
    rfl

/-- The values that are there are written one after the other; those that are not take no bytes. -/
theorem encodeValues_of_spells {parts : List Bytes}
    (h : List.Forall₂ (Spells t) (present column) parts) :
    encodeValues t column = .ok (plain t parts.flatten) := by
  induction column generalizing parts with
  | nil =>
    cases h
    rw [List.flatten_nil, plain_nil, encodeValues]
  | cons v vs ih =>
    rw [encodeValues]
    cases hnull : v.isNull with
    | true =>
      have habsent : present (v :: vs) = present vs := List.filter_cons_of_neg (by simp [hnull])
      rw [if_pos rfl, ih (habsent ▸ h)]
    | false =>
      rw [present_cons hnull] at h
      obtain _ | ⟨hspells, hparts⟩ := h
      rw [if_neg Bool.false_ne_true, hspells.encodeValue_eq, ih hparts, List.flatten_cons,
        plain_append]
      rfl

/-! ### The parts of the two payloads -/

/-- The flags of the first rows in a bitmap, which stand behind its count. -/
def marks (rows : Nat) (bitmap : Bytes) : List Bool := (unpackBits (bitmap.drop 4)).take rows

/-- The flags that are written are those that are read. -/
theorem marks_packBits {count : Bytes} (hcount : count.length = 4) (bits : List Bool) :
    marks bits.length (count ++ packBits bits) = bits := by
  rw [marks, List.drop_left' hcount, take_unpackBits_packBits]

/-- The flags say which rows have a value. -/
theorem Holds.marks_eq (h : Holds field column bitmap values unread) :
    marks column.length bitmap = column.map fun v => !v.isNull := by
  obtain ⟨count, packed, hcount, hpacked, hmarks, rfl⟩ := h.flags
  have henough : column.length ≤ (unpackBits packed).length := by
    rw [length_unpackBits, hpacked, bitmapSize]
    omega
  rw [marks, List.append_assoc, List.drop_left' (length_of_encodeCount hcount), unpackBits_append,
    List.take_append_of_le_length henough, hmarks]

theorem Holds.encodeCount_rows (h : Holds field column bitmap values unread) :
    encodeCount column.length = .ok (bitmap.take 4) := by
  obtain ⟨count, packed, hcount, -, -, rfl⟩ := h.flags
  rw [List.append_assoc, List.take_left' (length_of_encodeCount hcount), hcount]

theorem Holds.encodeCount_present (h : Holds field column bitmap values unread) :
    encodeCount ((column.map fun v => !v.isNull).count true) = .ok (values.take 4) := by
  obtain ⟨count, parts, hcount, -, rfl⟩ := h.data
  rw [List.take_left' (length_of_encodeCount hcount), ← length_present, hcount]

theorem Holds.encodeValues_eq (h : Holds field column bitmap values unread) :
    encodeValues field.dataType column = .ok (plain field.dataType (values.drop 4)) := by
  obtain ⟨count, parts, hcount, hparts, rfl⟩ := h.data
  rw [List.drop_left' (length_of_encodeCount hcount), encodeValues_of_spells hparts]

/-! ### Writing what was read -/

/-- What is written for a column that payloads hold: their counts, their flags, and the bytes of
their values, made plain. -/
theorem Holds.encode_eq (h : Holds field column bitmap values unread) :
    encode column field.dataType =
      .ok (bitmap.take 4 ++ packBits (marks column.length bitmap),
        values.take 4 ++ plain field.dataType (values.drop 4)) := by
  rw [encode, h.encodeCount_rows, h.marks_eq]
  simp only [Result.ok_bind, h.encodeValues_eq, h.encodeCount_present, Result.pure_eq]

/-- A column that is read has an entry for each row that its field admits, and it can be written
again. What is written has the same values byte for byte, but for bytes that stand for `true`, which
are written as one; it has the same count of rows and the same flags; and it is read as the column
again. -/
theorem encode_of_decode (h : decode field rows bitmap values = .ok column) :
    field.Admits rows column ∧ ∃ bitmap' values',
      encode column field.dataType = .ok (bitmap', values') ∧
      (field.dataType ≠ .boolean → values' = values) ∧
      values' = values.take 4 ++ plain field.dataType (values.drop 4) ∧
      bitmap'.take 4 = bitmap.take 4 ∧ marks rows bitmap' = marks rows bitmap ∧
      decode field rows bitmap' values' = .ok column := by
  obtain ⟨rfl, unread, hholds⟩ := decode_eq_ok_iff.mp h
  have hencode := hholds.encode_eq
  have hcount : (bitmap.take 4).length = 4 := length_of_encodeCount hholds.encodeCount_rows
  have hlength : (marks column.length bitmap).length = column.length := by
    rw [hholds.marks_eq, List.length_map]
  refine ⟨decode_admits h, _, _, hencode, fun hne => ?_, rfl, List.take_left' hcount, ?_,
    decode_encode field hencode hholds.nullable⟩
  · rw [plain_of_ne hne, List.take_append_drop]
  · have hmarks := marks_packBits hcount (marks column.length bitmap)
    rwa [hlength] at hmarks

/-- Three rows, the second without a value: seven stands for `true`, the flags are followed by bits
that are set and by a byte. What is written has none of this. -/
theorem encode_of_decode_loose :
    decode ⟨"b", .boolean, true⟩ 3 [3, 0, 0, 0, 0xFD, 9] [2, 0, 0, 0, 7, 0] =
        .ok [.boolean true, .null, .boolean false] ∧
      ∃ bitmap', encode [.boolean true, .null, .boolean false] .boolean =
          .ok (bitmap', [2, 0, 0, 0, 1, 0]) ∧
        bitmap'.take 4 = [3, 0, 0, 0] ∧ marks 3 bitmap' = [true, false, true] ∧
        decode ⟨"b", .boolean, true⟩ 3 bitmap' [2, 0, 0, 0, 1, 0] =
          .ok [.boolean true, .null, .boolean false] := by
  have hdecode : decode ⟨"b", .boolean, true⟩ 3 [3, 0, 0, 0, 0xFD, 9] [2, 0, 0, 0, 7, 0] =
      .ok [.boolean true, .null, .boolean false] := by decide +kernel
  obtain ⟨-, bitmap', values', hencode, -, rfl, hcount, hmarks, hagain⟩ := encode_of_decode hdecode
  exact ⟨hdecode, bitmap', hencode, hcount, hmarks, hagain⟩

/-! ### Payloads that are read alike -/

/-- Payloads that are read as the same column have the same flags and, made plain, the same bytes of
values; and payloads that have the same of both are read as the same column. -/
theorem eq_iff_of_decode {bitmap' values' : Bytes} {column' : List Value}
    (h : decode field rows bitmap values = .ok column)
    (h' : decode field rows bitmap' values' = .ok column') :
    column = column' ↔ marks rows bitmap = marks rows bitmap' ∧
      plain field.dataType (values.drop 4) = plain field.dataType (values'.drop 4) := by
  obtain ⟨rfl, unread, hholds⟩ := decode_eq_ok_iff.mp h
  obtain ⟨hlength, unread', hholds'⟩ := decode_eq_ok_iff.mp h'
  constructor
  · rintro rfl
    have hplain := hholds.encodeValues_eq.symm.trans hholds'.encodeValues_eq
    exact ⟨hholds.marks_eq.trans hholds'.marks_eq.symm, Except.ok.inj hplain⟩
  · rintro ⟨hmarks, hplain⟩
    -- each column is what its own flags take from the plain bytes, and both of these are the same
    have hread := takeValues_encodeValues field hholds.encodeValues_eq hholds.nullable
    have hread' := takeValues_encodeValues field hholds'.encodeValues_eq hholds'.nullable
    rw [← hholds'.marks_eq, hlength, ← hmarks, hholds.marks_eq, ← hplain, hread] at hread'
    cases hread'
    rfl

end StagedQuery.Column

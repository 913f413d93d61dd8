import StagedQuery.Text.Utf8

/-!
# Encoded text is read back

`decode_encode`: the bytes of a text decode to the text. A character is taken apart by its
size; the four lemmas `decodeFrom_ascii` to `decodeFrom_four` say what the reader does with a
well-formed character of one to four bytes, in terms of the values of its bytes, and
`decodeFrom_encodeChar` applies them to the bytes that the writer makes.

`decode_eq_ok_iff`: no other bytes decode to it. The four lemmas `encodeChar_ascii` to
`encodeChar_four` go the other way, from the bytes that the reader lets pass to the bytes that the
writer makes for the character.
-/

namespace StagedQuery.Utf8

variable {a b c d : UInt8} {rest : Bytes} (index : Nat)

/-! ### Reading one character -/

theorem decodeFrom_ascii (ha : a.toNat < 0x80) :
    decodeFrom index (a :: rest) = (decodeFrom (index + 1) rest).map (Char.ofNat a.toNat :: ·) := by
  rw [decodeFrom.eq_def]
  simp [UInt8.lt_iff_toNat_lt, ha]

theorem decodeFrom_two (ha : 0xC2 ≤ a.toNat) (ha' : a.toNat ≤ 0xDF) (hb : isContinuation b) :
    decodeFrom index (a :: b :: rest) = (decodeFrom (index + 2) rest).map
      (Char.ofNat ((a.toNat - 0xC0) * 64 + low6 b) :: ·) := by
  rw [decodeFrom.eq_def]
  simp [UInt8.lt_iff_toNat_lt, UInt8.le_iff_toNat_le, ha, ha', hb, show ¬ a.toNat < 128 by omega]

theorem decodeFrom_three (ha : 0xE0 ≤ a.toNat) (ha' : a.toNat ≤ 0xEF) (hb : second3 a b)
    (hc : isContinuation c) :
    decodeFrom index (a :: b :: c :: rest) = (decodeFrom (index + 3) rest).map
      (Char.ofNat ((a.toNat - 0xE0) * 4096 + low6 b * 64 + low6 c) :: ·) := by
  rw [decodeFrom.eq_def]
  simp [UInt8.lt_iff_toNat_lt, UInt8.le_iff_toNat_le, ha, ha', hb, hc,
    show ¬ a.toNat < 128 by omega, show ¬ a.toNat ≤ 223 by omega]

theorem decodeFrom_four (ha : 0xF0 ≤ a.toNat) (ha' : a.toNat ≤ 0xF4) (hb : second4 a b)
    (hc : isContinuation c) (hd : isContinuation d) :
    decodeFrom index (a :: b :: c :: d :: rest) = (decodeFrom (index + 4) rest).map
      (Char.ofNat ((a.toNat - 0xF0) * 262144 + low6 b * 4096 + low6 c * 64 + low6 d) :: ·) := by
  rw [decodeFrom.eq_def]
  simp [UInt8.lt_iff_toNat_lt, UInt8.le_iff_toNat_le, ha, ha', hb, hc, hd,
    show ¬ a.toNat < 128 by omega, show ¬ a.toNat ≤ 223 by omega, show ¬ a.toNat ≤ 239 by omega]

/-! ### The bytes of a character -/

theorem toNat_ofNat_of_lt {n : Nat} (h : n < 256) : (UInt8.ofNat n).toNat = n := by
  simp only [UInt8.toNat_ofNat']; omega

theorem isContinuation_ofNat (n : Nat) : isContinuation (UInt8.ofNat (n % 64 + 0x80)) := by
  have h := toNat_ofNat_of_lt (show n % 64 + 0x80 < 256 by omega)
  simp only [isContinuation, UInt8.le_iff_toNat_le, h]
  simp; omega

theorem low6_ofNat (n : Nat) : low6 (UInt8.ofNat (n % 64 + 0x80)) = n % 64 := by
  rw [low6, toNat_ofNat_of_lt (by omega)]; omega

/-- The second byte of a character of three bytes: the code is not below 0x800 and no surrogate. -/
theorem second3_ofNat {v : Nat} (h : 0x800 ≤ v) (h' : v ≤ 0xFFFF) (hs : v < 0xD800 ∨ 0xDFFF < v) :
    second3 (UInt8.ofNat (v / 4096 % 0x10 + 0xE0)) (UInt8.ofNat (v / 64 % 0x40 + 0x80)) := by
  have ha := toNat_ofNat_of_lt (show v / 4096 % 0x10 + 0xE0 < 256 by omega)
  have hb := toNat_ofNat_of_lt (show v / 64 % 0x40 + 0x80 < 256 by omega)
  simp only [second3, isContinuation, UInt8.le_iff_toNat_le, beq_iff_eq, ← UInt8.toNat_inj, ha, hb,
    UInt8.reduceToNat]
  split
  · simp; omega
  split
  · simp; omega
  · simp; omega

/-- The second byte of a character of four bytes: the code is not below 0x10000 and in range. -/
theorem second4_ofNat {v : Nat} (h : 0x10000 ≤ v) (h' : v < 0x110000) :
    second4 (UInt8.ofNat (v / 262144 % 0x08 + 0xF0)) (UInt8.ofNat (v / 4096 % 0x40 + 0x80)) := by
  have ha := toNat_ofNat_of_lt (show v / 262144 % 0x08 + 0xF0 < 256 by omega)
  have hb := toNat_ofNat_of_lt (show v / 4096 % 0x40 + 0x80 < 256 by omega)
  simp only [second4, isContinuation, UInt8.le_iff_toNat_le, beq_iff_eq, ← UInt8.toNat_inj, ha, hb,
    UInt8.reduceToNat]
  split
  · simp; omega
  split
  · simp; omega
  · simp; omega

/-- A character is below the surrogates or beyond them. -/
theorem char_range (c : Char) : c.toNat < 0xD800 ∨ 0xDFFF < c.toNat ∧ c.toNat < 0x110000 := c.valid

/-! ### Texts -/

theorem decodeFrom_encodeChar (c : Char) :
    decodeFrom index (String.utf8EncodeChar c ++ rest)
      = (decodeFrom (index + (String.utf8EncodeChar c).length) rest).map (c :: ·) := by
  have hc := char_range c
  have hn : c.val.toNat = c.toNat := rfl
  simp only [String.utf8EncodeChar, hn]
  generalize hv : c.toNat = v at hc
  have back (n : Nat) (h : n = v) : Char.ofNat n = c := by
    rw [h, ← hv, Char.ofNat_toNat]
  -- by the number of bytes; `omega` puts the code together again from its pieces
  split
  · have ha := toNat_ofNat_of_lt (show v < 256 by omega)
    rw [List.cons_append, decodeFrom_ascii _ (by omega), back _ ha]
    rfl
  split
  · have ha := toNat_ofNat_of_lt (show v / 64 % 0x20 + 0xC0 < 256 by omega)
    rw [List.cons_append, List.cons_append, decodeFrom_two _ (by omega) (by omega)
      (isContinuation_ofNat _), low6_ofNat, back _ (by omega)]
    rfl
  split
  · have ha := toNat_ofNat_of_lt (show v / 4096 % 0x10 + 0xE0 < 256 by omega)
    rw [List.cons_append, List.cons_append, List.cons_append,
      decodeFrom_three _ (by omega) (by omega) (second3_ofNat (by omega) (by omega) (by omega))
        (isContinuation_ofNat _), low6_ofNat, low6_ofNat, back _ (by omega)]
    rfl
  · have ha := toNat_ofNat_of_lt (show v / 262144 % 0x08 + 0xF0 < 256 by omega)
    rw [List.cons_append, List.cons_append, List.cons_append, List.cons_append,
      decodeFrom_four _ (by omega) (by omega) (second4_ofNat (by omega) (by omega))
        (isContinuation_ofNat _) (isContinuation_ofNat _), low6_ofNat, low6_ofNat, low6_ofNat,
      back _ (by omega)]
    rfl

theorem decodeFrom_encode (cs : List Char) :
    decodeFrom index (cs.flatMap String.utf8EncodeChar) = .ok cs := by
  induction cs generalizing index with
  | nil => rfl
  | cons c cs ih => rw [List.flatMap_cons, decodeFrom_encodeChar, ih]; rfl

/-- The bytes of a text decode to the text. -/
theorem decode_encode (s : String) : decode (encode s) = .ok s := by
  rw [decode, encode, decodeFrom_encode]
  simp [Except.map]

/-! ### Every text that is read was written so -/

theorem isContinuation_iff : isContinuation b ↔ 0x80 ≤ b.toNat ∧ b.toNat ≤ 0xBF := by
  simp [isContinuation, UInt8.le_iff_toNat_le]

/-- The second byte of a character of three bytes continues it, and the character is neither
written with too many bytes nor a surrogate. -/
theorem second3_bounds (h : second3 a b) : (0x80 ≤ b.toNat ∧ b.toNat ≤ 0xBF) ∧
    (a.toNat = 0xE0 → 0xA0 ≤ b.toNat) ∧ (a.toNat = 0xED → b.toNat ≤ 0x9F) := by
  simp only [second3, isContinuation, UInt8.le_iff_toNat_le, beq_iff_eq, ← UInt8.toNat_inj,
    UInt8.reduceToNat] at h
  split at h
  · simp at h; omega
  split at h
  · simp at h; omega
  · simp at h; omega

/-- The second byte of a character of four bytes continues it, and the character is neither written
with too many bytes nor out of range. -/
theorem second4_bounds (h : second4 a b) : (0x80 ≤ b.toNat ∧ b.toNat ≤ 0xBF) ∧
    (a.toNat = 0xF0 → 0x90 ≤ b.toNat) ∧ (a.toNat = 0xF4 → b.toNat ≤ 0x8F) := by
  simp only [second4, isContinuation, UInt8.le_iff_toNat_le, beq_iff_eq, ← UInt8.toNat_inj,
    UInt8.reduceToNat] at h
  split at h
  · simp at h; omega
  split at h
  · simp at h; omega
  · simp at h; omega

theorem val_ofNat {n : Nat} (h : n.isValidChar) : (Char.ofNat n).val.toNat = n := by
  rw [Char.ofNat, dif_pos h]
  exact Char.toNat_val ▸ rfl

theorem ofNat_eq {n : Nat} {b : UInt8} (h : n = b.toNat) : UInt8.ofNat n = b := by
  rw [h, UInt8.ofNat_toNat]

theorem encodeChar_ascii (ha : a.toNat < 0x80) :
    String.utf8EncodeChar (Char.ofNat a.toNat) = [a] := by
  rw [String.utf8EncodeChar, val_ofNat (.inl (by omega))]
  rw [if_pos (by omega), UInt8.ofNat_toNat]

theorem encodeChar_two (ha : 0xC2 ≤ a.toNat) (ha' : a.toNat ≤ 0xDF) (hb : isContinuation b) :
    String.utf8EncodeChar (Char.ofNat ((a.toNat - 0xC0) * 64 + low6 b)) = [a, b] := by
  have hb := isContinuation_iff.mp hb
  rw [low6]
  generalize hv : (a.toNat - 0xC0) * 64 + b.toNat % 64 = v
  rw [String.utf8EncodeChar, val_ofNat (.inl (by omega))]
  rw [if_neg (by omega), if_pos (by omega), ofNat_eq (b := a) (by omega),
    ofNat_eq (b := b) (by omega)]

theorem encodeChar_three (ha : 0xE0 ≤ a.toNat) (ha' : a.toNat ≤ 0xEF) (hb : second3 a b)
    (hc : isContinuation c) : String.utf8EncodeChar
      (Char.ofNat ((a.toNat - 0xE0) * 4096 + low6 b * 64 + low6 c)) = [a, b, c] := by
  have hb := second3_bounds hb
  have hc := isContinuation_iff.mp hc
  rw [low6, low6]
  generalize hv : (a.toNat - 0xE0) * 4096 + b.toNat % 64 * 64 + c.toNat % 64 = v
  have hrange : v < 0xD800 ∨ 0xDFFF < v := by omega
  rw [String.utf8EncodeChar, val_ofNat (hrange.imp_right fun h => ⟨h, by omega⟩)]
  rw [if_neg (by omega), if_neg (by omega), if_pos (by omega), ofNat_eq (b := a) (by omega),
    ofNat_eq (b := b) (by omega), ofNat_eq (b := c) (by omega)]

theorem encodeChar_four (ha : 0xF0 ≤ a.toNat) (ha' : a.toNat ≤ 0xF4) (hb : second4 a b)
    (hc : isContinuation c) (hd : isContinuation d) : String.utf8EncodeChar
      (Char.ofNat ((a.toNat - 0xF0) * 262144 + low6 b * 4096 + low6 c * 64 + low6 d)) =
        [a, b, c, d] := by
  have hb := second4_bounds hb
  have hc := isContinuation_iff.mp hc
  have hd := isContinuation_iff.mp hd
  rw [low6, low6, low6]
  generalize hv : (a.toNat - 0xF0) * 262144 + b.toNat % 64 * 4096 + c.toNat % 64 * 64 +
    d.toNat % 64 = v
  rw [String.utf8EncodeChar, val_ofNat (.inr ⟨by omega, by omega⟩)]
  rw [if_neg (by omega), if_neg (by omega), if_neg (by omega), ofNat_eq (b := a) (by omega),
    ofNat_eq (b := b) (by omega), ofNat_eq (b := c) (by omega), ofNat_eq (b := d) (by omega)]

/-- A character that was read before the rest, and its bytes before those of the rest. -/
theorem encode_map_cons {front : Bytes} {code : Nat} {cs : List Char} {x : Except Fault (List Char)}
    (h : x.map (Char.ofNat code :: ·) = .ok cs)
    (hfront : String.utf8EncodeChar (Char.ofNat code) = front)
    (hrest : ∀ more, x = .ok more → more.flatMap String.utf8EncodeChar = rest) :
    cs.flatMap String.utf8EncodeChar = front ++ rest := by
  cases x with
  | error e => cases h
  | ok more =>
    cases h
    rw [List.flatMap_cons, hfront, hrest more rfl]

theorem encode_decodeFrom {bytes : Bytes} {cs : List Char} (h : decodeFrom index bytes = .ok cs) :
    cs.flatMap String.utf8EncodeChar = bytes := by
  fun_induction decodeFrom index bytes generalizing cs with
  | case1 =>
    cases h
    rfl
  | case2 index a rest ha ih =>
    exact encode_map_cons h (encodeChar_ascii (UInt8.lt_iff_toNat_lt.mp ha)) fun more => ih
  | case5 index a _ ha b rest hb code =>
    rename_i ih
    simp only [Bool.and_eq_true, decide_eq_true_eq, UInt8.le_iff_toNat_le] at ha
    rw [Bool.not_eq_true', Bool.not_eq_false] at hb
    exact encode_map_cons h (encodeChar_two ha.1 ha.2 hb) fun more => ih
  | case10 index a _ _ ha b hb c rest hc code =>
    rename_i ih
    simp only [Bool.and_eq_true, decide_eq_true_eq, UInt8.le_iff_toNat_le] at ha
    rw [Bool.not_eq_true', Bool.not_eq_false] at hb hc
    exact encode_map_cons h (encodeChar_three ha.1 ha.2 hb hc) fun more => ih
  | case17 index a _ _ _ ha b hb c hc d rest hd code =>
    rename_i ih
    simp only [Bool.and_eq_true, decide_eq_true_eq, UInt8.le_iff_toNat_le] at ha
    rw [Bool.not_eq_true', Bool.not_eq_false] at hb hc hd
    exact encode_map_cons h (encodeChar_four ha.1 ha.2 hb hc hd) fun more => ih
  | _ => cases h

/-- Bytes that decode to a text are the bytes of the text. -/
theorem encode_eq_of_decode {bytes : Bytes} {s : String} (h : decode bytes = .ok s) :
    encode s = bytes := by
  rw [decode] at h
  cases hread : decodeFrom 0 bytes with
  | error e =>
    rw [hread] at h
    cases h
  | ok cs =>
    rw [hread] at h
    cases h
    rw [encode, String.toList_ofList, encode_decodeFrom 0 hread]

theorem decode_eq_ok_iff {bytes : Bytes} {s : String} :
    decode bytes = .ok s ↔ bytes = encode s := by
  constructor
  · exact fun h => (encode_eq_of_decode h).symm
  · rintro rfl
    exact decode_encode s

end StagedQuery.Utf8

import StagedQuery.Json.Decode
import StagedQuery.Proofs.Text.Utf8

/-!
# Scalars are read back

A number and a string are read as they were written, whatever follows them. A number needs a
delimiter behind it, since the reader takes every digit, point and exponent that it meets
(`takeNumeral_chars`); a whole number of 64 bits is then kept as it is (`Numeral.value_ofInt`).
A string is read in pieces, one or more for each character, and `Spells` says which pieces are
those of a character: what the reader takes for them, and what they stand for once they are joined
(`takePieces_text`).
-/

namespace StagedQuery.Json

/-- The bytes of characters. -/
abbrev encoded (cs : List Char) : Bytes := cs.flatMap String.utf8EncodeChar

theorem bytes_eq (json : Json) : json.bytes = encoded json.chars := by
  rw [bytes, render, Utf8.encode, String.toList_ofList]

theorem encoded_ascii {c : Char} (h : c.toNat < 0x80) :
    String.utf8EncodeChar c = [UInt8.ofNat c.toNat] := by
  rw [String.utf8EncodeChar, if_pos (show c.val.toNat ≤ 0x7f by exact Nat.le_of_lt_succ h)]
  rfl

theorem encoded_append (cs ds : List Char) : encoded (cs ++ ds) = encoded cs ++ encoded ds :=
  List.flatMap_append

/-! ### Numerals -/

/-- The decimal digits of a number, the first one first. -/
def decimals (n : Nat) : List Nat := if n < 10 then [n] else decimals (n / 10) ++ [n % 10]

theorem toDigits_eq_map (n : Nat) : Nat.toDigits 10 n = (decimals n).map Nat.digitChar := by
  induction n using decimals.induct with
  | case1 n h => rw [decimals, if_pos h, Nat.toDigits_of_lt_base h]; rfl
  | case2 n h ih =>
    rw [decimals, if_neg h, Nat.toDigits_of_base_le (by decide) (Nat.le_of_not_lt h), ih]
    simp

theorem lt_ten_of_mem_decimals {n d : Nat} (h : d ∈ decimals n) : d < 10 := by
  induction n using decimals.induct with
  | case1 n hn => rw [decimals, if_pos hn, List.mem_singleton] at h; omega
  | case2 n hn ih =>
    rw [decimals, if_neg hn, List.mem_append, List.mem_singleton] at h
    rcases h with h | h
    · exact ih h
    · omega

theorem decimals_pos {n : Nat} (h : 0 < n) : ∃ d ds, decimals n = d :: ds ∧ 0 < d := by
  induction n using decimals.induct with
  | case1 n hn => exact ⟨n, [], by rw [decimals, if_pos hn], h⟩
  | case2 n hn ih =>
    obtain ⟨d, ds, hd, h0⟩ := ih (by omega)
    exact ⟨d, ds ++ [n % 10], by rw [decimals, if_neg hn, hd]; rfl, h0⟩

theorem encoded_digitChar :
    ∀ d < 10, String.utf8EncodeChar (Nat.digitChar d) = [UInt8.ofNat (0x30 + d)] := by decide

/-- A byte string is empty or goes on with a comma or a closing bracket. -/
def Delimited (bytes : Bytes) : Prop :=
  ∀ b rest, bytes = b :: rest → b = 0x2C ∨ b = 0x5D ∨ b = 0x7D

theorem digit?_ofNat : ∀ d < 10, digit? (UInt8.ofNat (0x30 + d)) = some d := by decide

/-- A byte string that does not go on with a digit. -/
def PastDigits (bytes : Bytes) : Prop := ∀ b rest, bytes = b :: rest → digit? b = none

theorem PastDigits.cons {b : UInt8} (h : digit? b = none) (rest : Bytes) :
    PastDigits (b :: rest) := by
  rintro _ _ ⟨⟩
  exact h

theorem Delimited.pastDigits {bytes : Bytes} (h : Delimited bytes) : PastDigits bytes := by
  intro b rest hb
  rcases h b rest hb with rfl | rfl | rfl <;> rfl

/-- The characters of digits. -/
def digitChars (ds : List Nat) : List Char := ds.map Nat.digitChar

theorem encoded_digitChars {d : Nat} (hd : d < 10) (ds : List Nat) :
    encoded (digitChars (d :: ds)) = UInt8.ofNat (0x30 + d) :: encoded (digitChars ds) := by
  rw [digitChars, List.map_cons, encoded, List.flatMap_cons, encoded_digitChar d hd]
  rfl

theorem takeDigits_encoded {ds : List Nat} (h : ∀ d ∈ ds, d < 10) {rest : Bytes}
    (hr : PastDigits rest) : takeDigits (encoded (digitChars ds) ++ rest) = (ds, rest) := by
  induction ds with
  | nil =>
    cases rest with
    | nil => rfl
    | cons b rest => simp [encoded, digitChars, takeDigits, hr b rest rfl]
  | cons d ds ih =>
    have hd := h d List.mem_cons_self
    rw [encoded_digitChars hd, List.cons_append, takeDigits, digit?_ofNat d hd]
    simp only [ih fun d' hd' => h d' (List.mem_cons_of_mem _ hd')]

theorem collectWhole_append (ds : List Nat) (d m k : Nat) (h : collectWhole ds m = (k, 0))
    (hk : k * 10 + d ≤ maxUnsigned) : collectWhole (ds ++ [d]) m = (k * 10 + d, 0) := by
  induction ds generalizing m with
  | nil =>
    simp only [collectWhole, Prod.mk.injEq, and_true] at h
    subst h
    simp [collectWhole, hk]
  | cons e ds ih =>
    simp only [collectWhole, List.cons_append] at h ⊢
    split at h
    · rename_i he
      rw [if_pos he, ih _ h]
    · simp at h

theorem collectWhole_decimals {n : Nat} (h : n ≤ maxUnsigned) :
    collectWhole (decimals n) 0 = (n, 0) := by
  induction n using decimals.induct with
  | case1 n hn => rw [decimals, if_pos hn]; simp [collectWhole, h]
  | case2 n hn ih =>
    rw [decimals, if_neg hn, collectWhole_append _ _ _ _ (ih (by omega)) (by omega)]
    congr 1; omega

theorem takeFraction_delimited {rest : Bytes} (hr : Delimited rest) :
    takeFraction rest = some (none, rest) := by
  cases rest with
  | nil => rfl
  | cons b rest => rcases hr b rest rfl with rfl | rfl | rfl <;> rfl

theorem takeExponent_delimited {rest : Bytes} (hr : Delimited rest) :
    takeExponent rest = some (none, rest) := by
  cases rest with
  | nil => rfl
  | cons b rest => rcases hr b rest rfl with rfl | rfl | rfl <;> rfl

/-- Decimal digits, at least one of them. -/
structure AreDigits (ds : List Nat) : Prop where
  ne_nil : ds ≠ []
  lt_ten : ∀ d ∈ ds, d < 10

theorem AreDigits.cons {d : Nat} (hd : d < 10) {ds : List Nat} (hds : ∀ d ∈ ds, d < 10) :
    AreDigits (d :: ds) :=
  ⟨List.cons_ne_nil _ _, List.forall_mem_cons.mpr ⟨hd, hds⟩⟩

theorem areDigits_decimals (n : Nat) : AreDigits (decimals n) where
  ne_nil := by
    rw [decimals]
    split
    · exact List.cons_ne_nil _ _
    · exact List.append_ne_nil_of_right_ne_nil _ (List.cons_ne_nil _ _)
  lt_ten _ := lt_ten_of_mem_decimals

/-- A numeral whose parts have digits, and whose first digit is zero only if it is the only one
before the point. -/
structure Numeral.WellFormed (numeral : Numeral) : Prop where
  whole : AreDigits numeral.whole
  lead : ∀ ds, numeral.whole = 0 :: ds → ds = []
  fraction : ∀ ds, numeral.fraction = some ds → AreDigits ds
  exponent : ∀ negative ds, numeral.exponent = some (negative, ds) → AreDigits ds

/-- The characters of the part after the point. -/
def fractionChars : Option (List Nat) → List Char
  | none => []
  | some ds => '.' :: digitChars ds

/-- The characters of the exponent, whose sign is always written. -/
def exponentChars : Option (Bool × List Nat) → List Char
  | none => []
  | some (negative, ds) => 'e' :: (if negative then '-' else '+') :: digitChars ds

/-- The characters of a numeral. -/
def Numeral.chars (numeral : Numeral) : List Char :=
  (if numeral.negative then ['-'] else []) ++ digitChars numeral.whole
    ++ fractionChars numeral.fraction ++ exponentChars numeral.exponent

theorem takeExponent_chars {exponent : Option (Bool × List Nat)}
    (h : ∀ negative ds, exponent = some (negative, ds) → AreDigits ds) {rest : Bytes}
    (hr : Delimited rest) :
    takeExponent (encoded (exponentChars exponent) ++ rest) = some (exponent, rest) := by
  cases exponent with
  | none => exact takeExponent_delimited hr
  | some e =>
    obtain ⟨negative, ds⟩ := e
    have hds := h negative ds rfl
    have htake := takeDigits_encoded hds.lt_ten hr.pastDigits
    obtain ⟨d, ds', rfl⟩ := List.exists_cons_of_ne_nil hds.ne_nil
    have hsign : encoded (exponentChars (some (negative, d :: ds'))) ++ rest =
        0x65 :: (if negative then 0x2D else 0x2B) ::
          (encoded (digitChars (d :: ds')) ++ rest) := by
      cases negative <;> rfl
    rw [hsign, takeExponent]
    cases negative <;> simp [htake]

theorem pastDigits_exponent (exponent : Option (Bool × List Nat)) {rest : Bytes}
    (hr : Delimited rest) : PastDigits (encoded (exponentChars exponent) ++ rest) := by
  cases exponent with
  | none => exact hr.pastDigits
  | some e => exact .cons (by decide) _

theorem takeFraction_chars {fraction : Option (List Nat)}
    (h : ∀ ds, fraction = some ds → AreDigits ds) (exponent : Option (Bool × List Nat))
    {rest : Bytes} (hr : Delimited rest) :
    takeFraction (encoded (fractionChars fraction) ++ (encoded (exponentChars exponent) ++ rest)) =
      some (fraction, encoded (exponentChars exponent) ++ rest) := by
  have hpast := pastDigits_exponent exponent hr
  cases fraction with
  | none =>
    cases exponent with
    | none => exact takeFraction_delimited hr
    | some e => rfl
  | some ds =>
    have hds := h ds rfl
    have htake := takeDigits_encoded hds.lt_ten hpast
    obtain ⟨d, ds', rfl⟩ := List.exists_cons_of_ne_nil hds.ne_nil
    have hpoint : ∀ tail, encoded (fractionChars (some (d :: ds'))) ++ tail =
        0x2E :: (encoded (digitChars (d :: ds')) ++ tail) := fun _ => rfl
    rw [hpoint, takeFraction]
    simp [htake]

theorem pastDigits_fraction (fraction : Option (List Nat)) {rest : Bytes}
    (hr : PastDigits rest) : PastDigits (encoded (fractionChars fraction) ++ rest) := by
  cases fraction with
  | none => exact hr
  | some ds => exact .cons (by decide) _

/-- The digits of a numeral do not look like a sign. -/
theorem head_digitChars {ds : List Nat} (h : AreDigits ds) (rest : Bytes) :
    ∃ b tail, encoded (digitChars ds) ++ rest = b :: tail ∧ (b == 0x2D) = false ∧
      0x30 ≤ b.toNat ∧ b.toNat ≤ 0x39 := by
  obtain ⟨d, ds', rfl⟩ := List.exists_cons_of_ne_nil h.ne_nil
  have hd := h.lt_ten d List.mem_cons_self
  have hb : (UInt8.ofNat (0x30 + d)).toNat = 0x30 + d := Utf8.toNat_ofNat_of_lt (by omega)
  refine ⟨_, _, by rw [encoded_digitChars hd]; rfl, ?_, by omega, by omega⟩
  rw [beq_eq_false_iff_ne, Ne, ← UInt8.toNat_inj, hb]
  simp
  omega

/-- A numeral is read as it was written. -/
theorem takeNumeral_chars {numeral : Numeral} (h : numeral.WellFormed) {rest : Bytes}
    (hr : Delimited rest) :
    takeNumeral (encoded numeral.chars ++ rest) = some (numeral, rest) := by
  obtain ⟨negative, whole, fraction, exponent⟩ := numeral
  obtain ⟨b, tail, hb, hsign, -⟩ := head_digitChars h.whole
    (encoded (fractionChars fraction) ++ (encoded (exponentChars exponent) ++ rest))
  have hwhole := takeDigits_encoded h.whole.lt_ten
    (pastDigits_fraction fraction (pastDigits_exponent exponent hr))
  have hfraction := takeFraction_chars h.fraction exponent hr
  have hexponent := takeExponent_chars h.exponent hr
  have hlead : ∀ d ds, whole ≠ 0 :: d :: ds := by
    rintro d ds rfl
    exact List.cons_ne_nil _ _ (h.lead _ rfl)
  obtain ⟨d, ds, rfl⟩ := List.exists_cons_of_ne_nil h.whole.ne_nil
  simp only [Numeral.chars, encoded_append, List.append_assoc]
  rw [hb] at hwhole ⊢
  cases negative with
  | false =>
    show takeNumeral (b :: tail) = _
    simp only [takeNumeral, hsign, Bool.false_eq_true, if_false, hwhole]
    rcases ds with _ | ⟨d', ds⟩ <;> rcases d with _ | d <;>
      simp_all
  | true =>
    show takeNumeral (0x2D :: b :: tail) = _
    simp only [takeNumeral, beq_self_eq_true, if_true, hwhole]
    rcases ds with _ | ⟨d', ds⟩ <;> rcases d with _ | d <;>
      simp_all

/-- The digits of a number, with or without a minus sign before them. -/
theorem wellFormed_decimals (negative : Bool) (n : Nat) :
    (⟨negative, decimals n, none, none⟩ : Numeral).WellFormed where
  whole := areDigits_decimals n
  lead ds hds := by
    rcases Nat.eq_zero_or_pos n with rfl | hn
    · have hzero : decimals 0 = [0] := by rw [decimals, if_pos (by decide)]
      exact (List.cons.inj (hzero.symm.trans hds)).2.symm
    · obtain ⟨d, ds', hd, h0⟩ := decimals_pos hn
      obtain ⟨rfl, -⟩ := List.cons.inj (hd.symm.trans hds)
      exact absurd h0 (Nat.lt_irrefl 0)
  fraction := nofun
  exponent := nofun

/-- A whole number of 64 bits, signed or not. -/
def Fits64 (n : Int) : Prop := -0x8000000000000000 ≤ n ∧ n ≤ 0xffffffffffffffff

/-- The numeral of a whole number. -/
def Numeral.ofInt (n : Int) : Numeral := ⟨n < 0, decimals n.natAbs, none, none⟩

theorem Numeral.chars_ofInt (n : Int) : (toString n).toList = (Numeral.ofInt n).chars := by
  rw [Int.toString_eq_repr, Int.repr_eq_if, Numeral.ofInt, Numeral.chars]
  by_cases hn : 0 ≤ n
  · have habs : n.toNat = n.natAbs := by omega
    rw [if_pos hn, Nat.toList_repr, toDigits_eq_map, habs]
    simp [Int.not_lt.mpr hn, digitChars, fractionChars, exponentChars]
  · have habs : (-n).toNat = n.natAbs := by omega
    rw [if_neg hn, String.toList_append, Nat.toList_repr, toDigits_eq_map, habs]
    simp [Int.not_le.mp hn, digitChars, fractionChars, exponentChars]

theorem Numeral.value_ofInt {n : Int} (h : Fits64 n) : (Numeral.ofInt n).value = integer n := by
  obtain ⟨h0, h1⟩ := h
  have hmax : n.natAbs ≤ maxUnsigned := by simp only [maxUnsigned]; omega
  simp only [Numeral.value, Numeral.ofInt, collectWhole_decimals hmax, if_true]
  by_cases hn : n < 0
  · have hp : 0 < n.natAbs ∧ n.natAbs ≤ 0x8000000000000000 := by omega
    have hneg : -(n.natAbs : Int) = n := by omega
    rw [decide_eq_true hn, if_neg (by decide), if_pos hp, hneg]
  · have hpos : (n.natAbs : Int) = n := by omega
    rw [decide_eq_false hn, if_pos (by decide), hpos]

/-! ### Strings -/

theorem takePieces_quote (rest : Bytes) : takePieces (0x22 :: rest) = some ([], rest) := by
  rw [takePieces.eq_def]; rfl

/-- What a character of a string adds to the pieces that follow it. -/
abbrev before (pieces : List Piece) (p : List Piece × Bytes) : List Piece × Bytes :=
  (pieces ++ p.1, p.2)

theorem takePieces_byte {b : UInt8} (hq : b ≠ 0x22) (hs : b ≠ 0x5C) (hc : 0x20 ≤ b.toNat)
    (rest : Bytes) : takePieces (b :: rest) = (takePieces rest).map (before [.byte b]) := by
  rw [takePieces.eq_def]
  simp only [beq_iff_eq, hq, hs, UInt8.lt_iff_toNat_lt, if_false]
  rw [if_neg (by simpa using hc)]
  cases takePieces rest <;> rfl

theorem takePieces_escape {e c : UInt8} (hu : e ≠ 0x75) (hc : escape? e = some c) (rest : Bytes) :
    takePieces (0x5C :: e :: rest) = (takePieces rest).map (before [.byte c]) := by
  rw [takePieces.eq_def]
  simp only [beq_iff_eq, hu, hc]
  cases takePieces rest <;> rfl

theorem takePieces_unit {a b c d : UInt8} {n : Nat} (h : unit? a b c d = some n) (rest : Bytes) :
    takePieces (0x5C :: 0x75 :: a :: b :: c :: d :: rest)
      = (takePieces rest).map (before [.unit n]) := by
  rw [takePieces.eq_def]
  simp only [h]
  cases takePieces rest <;> rfl

/-- The bytes of a character that is no ASCII character are no ASCII characters either. -/
theorem le_of_mem_encodeChar {c : Char} (h : 0x80 ≤ c.toNat) {b : UInt8}
    (hb : b ∈ String.utf8EncodeChar c) : 0x80 ≤ b.toNat := by
  have h : 0x80 ≤ c.val.toNat := h
  simp only [String.utf8EncodeChar] at hb
  split at hb
  · omega
  split at hb
  · rcases (by simpa using hb : _ ∨ _) with rfl | rfl <;> simp <;> omega
  split at hb
  · rcases (by simpa using hb : _ ∨ _ ∨ _) with rfl | rfl | rfl <;> simp <;> omega
  · rcases (by simpa using hb : _ ∨ _ ∨ _ ∨ _) with rfl | rfl | rfl | rfl <;> simp <;> omega

theorem unit?_control : ∀ n < 0x20,
    unit? 0x30 0x30 (UInt8.ofNat (hexChar (n / 16)).toNat) (UInt8.ofNat (hexChar (n % 16)).toNat)
      = some n := by decide

theorem encoded_control : ∀ n < 0x20,
    encoded ['\\', 'u', '0', '0', hexChar (n / 16), hexChar (n % 16)]
      = [0x5C, 0x75, 0x30, 0x30, UInt8.ofNat (hexChar (n / 16)).toNat,
        UInt8.ofNat (hexChar (n % 16)).toNat] := by decide

/-- The pieces that a character of a string is read as. -/
structure Spells (c : Char) (pieces : List Piece) : Prop where
  taken : ∀ rest,
    takePieces (encoded (escapeChar c) ++ rest) = (takePieces rest).map (before pieces)
  joined : ∀ ps, joinPieces (pieces ++ ps) = (joinPieces ps).map (String.utf8EncodeChar c ++ ·)

theorem takePieces_bytes (bs : Bytes) (h : ∀ b ∈ bs, b ≠ 0x22 ∧ b ≠ 0x5C ∧ 0x20 ≤ b.toNat)
    (rest : Bytes) :
    takePieces (bs ++ rest) = (takePieces rest).map (before (bs.map .byte)) := by
  induction bs with
  | nil => rw [List.nil_append]; cases takePieces rest <;> rfl
  | cons b bs ih =>
    obtain ⟨hq, hs, hc⟩ := h b List.mem_cons_self
    rw [List.cons_append, takePieces_byte hq hs hc, ih fun b hb => h b (List.mem_cons_of_mem _ hb)]
    cases takePieces rest <;> rfl

theorem joinPieces_bytes (bs : Bytes) (ps : List Piece) :
    joinPieces (bs.map .byte ++ ps) = (joinPieces ps).map (bs ++ ·) := by
  induction bs with
  | nil => simp
  | cons b bs ih =>
    rw [List.map_cons, List.cons_append, joinPieces, ih]
    cases joinPieces ps <;> rfl

theorem Spells.escape {c : Char} {e b : UInt8}
    (hesc : encoded (escapeChar c) = [0x5C, e]) (hu : e ≠ 0x75) (hb : escape? e = some b)
    (hc : String.utf8EncodeChar c = [b]) : Spells c [.byte b] where
  taken rest := by rw [hesc]; exact takePieces_escape hu hb rest
  joined ps := by rw [hc]; exact joinPieces_bytes [b] ps

/-- Every character of a string is read as pieces that stand for it. -/
theorem exists_spells (c : Char) : ∃ pieces, Spells c pieces := by
  have back {n : Nat} (h : c.toNat = n) : c = Char.ofNat n := by rw [← h, Char.ofNat_toNat]
  by_cases hq : c = '"'
  · subst hq; exact ⟨_, .escape (e := 0x22) (by decide) (by decide) rfl (by decide)⟩
  by_cases hs : c = '\\'
  · subst hs; exact ⟨_, .escape (e := 0x5C) (by decide) (by decide) rfl (by decide)⟩
  by_cases hb : c.toNat = 0x08
  · rw [back hb]; exact ⟨_, .escape (e := 0x62) (by decide) (by decide) rfl (by decide)⟩
  by_cases hf : c.toNat = 0x0C
  · rw [back hf]; exact ⟨_, .escape (e := 0x66) (by decide) (by decide) rfl (by decide)⟩
  by_cases hn : c.toNat = 0x0A
  · rw [back hn]; exact ⟨_, .escape (e := 0x6E) (by decide) (by decide) rfl (by decide)⟩
  by_cases hr : c.toNat = 0x0D
  · rw [back hr]; exact ⟨_, .escape (e := 0x72) (by decide) (by decide) rfl (by decide)⟩
  by_cases ht : c.toNat = 0x09
  · rw [back ht]; exact ⟨_, .escape (e := 0x74) (by decide) (by decide) rfl (by decide)⟩
  by_cases hc : c.toNat < 0x20
  · refine ⟨[.unit c.toNat], fun rest => ?_, fun ps => ?_⟩
    · have : escapeChar c
          = ['\\', 'u', '0', '0', hexChar (c.toNat / 16), hexChar (c.toNat % 16)] := by
        simp [escapeChar, hq, hs, hb, hf, hn, hr, ht, hc]
      rw [this, encoded_control _ hc]
      exact takePieces_unit (unit?_control _ hc) rest
    · have h1 : ¬ 0xDC00 ≤ c.toNat := by omega
      have h2 : ¬ 0xD800 ≤ c.toNat := by omega
      rw [List.singleton_append, joinPieces.eq_def]
      simp [h1, h2]
  · refine ⟨(String.utf8EncodeChar c).map .byte, fun rest => ?_, joinPieces_bytes _⟩
    have : escapeChar c = [c] := by simp [escapeChar, hq, hs, hb, hf, hn, hr, ht, hc]
    rw [this, encoded, List.flatMap_singleton]
    refine takePieces_bytes _ (fun b hb => ?_) rest
    rcases Nat.lt_or_ge c.toNat 0x80 with ha | ha
    · rw [encoded_ascii ha, List.mem_singleton] at hb
      have hn := Utf8.toNat_ofNat_of_lt (show c.toNat < 256 by omega)
      subst hb
      refine ⟨fun h => hq ?_, fun h => hs ?_, by omega⟩
      · exact back (by rw [← hn, h]; rfl)
      · exact back (by rw [← hn, h]; rfl)
    · have := le_of_mem_encodeChar ha hb
      refine ⟨?_, ?_, by omega⟩ <;> rintro rfl <;> simp at this

theorem takePieces_chars (cs : List Char) (rest : Bytes) :
    ∃ pieces, takePieces (encoded (cs.flatMap escapeChar) ++ 0x22 :: rest) = some (pieces, rest) ∧
      joinPieces pieces = some (encoded cs) := by
  induction cs with
  | nil => exact ⟨[], takePieces_quote rest, rfl⟩
  | cons c cs ih =>
    obtain ⟨pieces, ht, hj⟩ := ih
    obtain ⟨ps, hc⟩ := exists_spells c
    refine ⟨ps ++ pieces, ?_, ?_⟩
    · rw [List.flatMap_cons, encoded, List.flatMap_append, List.append_assoc, hc.taken, ht]
      rfl
    · rw [hc.joined, hj]
      rfl

/-- A string is read as it was written, up to its closing quote. -/
theorem takePieces_text (s : String) (rest : Bytes) :
    ∃ pieces, takePieces (encoded (s.toList.flatMap escapeChar) ++ 0x22 :: rest)
        = some (pieces, rest) ∧ text? pieces = some s := by
  obtain ⟨pieces, ht, hj⟩ := takePieces_chars s.toList rest
  refine ⟨pieces, ht, ?_⟩
  have := Utf8.decode_encode s
  rw [Utf8.encode] at this
  simp [text?, hj, this, Except.toOption]

end StagedQuery.Json

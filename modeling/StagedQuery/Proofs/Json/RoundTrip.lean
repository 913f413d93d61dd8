import StagedQuery.Proofs.Number.Notation

/-!
# Values are read back

`parse_bytes`: the text of a value is read as `Json.reread` of it, if the value is *writable*, that
is, if nothing in it is unreadable and its whole numbers have 64 bits. Such a value comes back as
it is, up to its floating-point numbers: each of them comes back as what its digits are read as.
What that is depends on floating-point arithmetic, so it is left as it is, but it is always a
scalar, and reading goes on behind it.

The reader stops at a delimiter, so the statement that the induction carries has a rest behind
the value (`takeValue_chars`). The induction is on the fuel, which the length of the text bounds.
-/

namespace StagedQuery.Json

/-! ### Values -/

mutual

/-- A value whose whole numbers have 64 bits, with nothing unreadable in it. -/
def Writable : Json → Prop
  | integer n => Fits64 n
  | unreadable => False
  | array items => WritableItems items
  | object members => WritableMembers members
  | _ => True

/-- Every item is writable. -/
def WritableItems : List Json → Prop
  | [] => True
  | item :: items => Writable item ∧ WritableItems items

/-- Every member is writable. -/
def WritableMembers : List (String × Json) → Prop
  | [] => True
  | (_, value) :: members => Writable value ∧ WritableMembers members

end

mutual

/-- The value with each floating-point number replaced by what its text is read as. -/
def reread : Json → Json
  | float bits => (parse (float bits).bytes).getD unreadable
  | single bits => (parse (single bits).bytes).getD unreadable
  | array items => array (rereadItems items)
  | object members => object (rereadMembers members)
  | json => json

/-- Reread each item. -/
def rereadItems : List Json → List Json
  | [] => []
  | item :: items => reread item :: rereadItems items

/-- Reread each member. -/
def rereadMembers : List (String × Json) → List (String × Json)
  | [] => []
  | (name, value) :: members => (name, reread value) :: rereadMembers members

end

@[simp] theorem reread_null : null.reread = null := rfl

@[simp] theorem reread_bool (b : Bool) : (bool b).reread = bool b := rfl

@[simp] theorem reread_integer (n : Int) : (integer n).reread = integer n := rfl

@[simp] theorem reread_string (s : String) : (string s).reread = string s := rfl

@[simp] theorem reread_object (members : List (String × Json)) :
    (object members).reread = object (rereadMembers members) := rfl

@[simp] theorem rereadMembers_nil : rereadMembers [] = [] := rfl

@[simp] theorem rereadMembers_cons (name : String) (value : Json)
    (members : List (String × Json)) :
    rereadMembers ((name, value) :: members) = (name, value.reread) :: rereadMembers members := rfl

theorem Delimited.cons {b : UInt8} (h : b = 0x2C ∨ b = 0x5D ∨ b = 0x7D) (rest : Bytes) :
    Delimited (b :: rest) := by
  rintro _ _ ⟨⟩
  exact h

/-- A byte that a value may start with: no blank, and no closing bracket. -/
def Opens (b : UInt8) : Prop := (∀ rest, skipBlanks (b :: rest) = b :: rest) ∧ b ≠ 0x5D

/-- A byte that a numeral starts with. -/
def OpensNumeral (b : UInt8) : Prop := b = 0x2D ∨ 0x30 ≤ b.toNat ∧ b.toNat ≤ 0x39

theorem OpensNumeral.ne {b : UInt8} (h : OpensNumeral b) (c : UInt8) (hc : c ≠ 0x2D)
    (hc' : c.toNat < 0x30 ∨ 0x39 < c.toNat) : b ≠ c := by
  rintro rfl
  rcases h with h | h
  · exact hc h
  · omega

theorem OpensNumeral.opens {b : UInt8} (h : OpensNumeral b) : Opens b := by
  refine ⟨fun rest => ?_, h.ne _ (by decide) (by decide)⟩
  have h1 := h.ne 0x20 (by decide) (by decide)
  have h2 := h.ne 0x09 (by decide) (by decide)
  have h3 := h.ne 0x0A (by decide) (by decide)
  have h4 := h.ne 0x0D (by decide) (by decide)
  simp [skipBlanks, h1, h2, h3, h4]

theorem takeValue_numeral {b : UInt8} (h : OpensNumeral b) (fuel : Nat) (rest : Bytes) :
    takeValue (fuel + 1) (b :: rest)
      = (takeNumeral (b :: rest)).map fun p => (p.1.value, p.2) := by
  have h1 := h.ne 0x6E (by decide) (by decide)
  have h2 := h.ne 0x74 (by decide) (by decide)
  have h3 := h.ne 0x66 (by decide) (by decide)
  have h4 := h.ne 0x22 (by decide) (by decide)
  have h5 := h.ne 0x5B (by decide) (by decide)
  have h6 := h.ne 0x7B (by decide) (by decide)
  rw [takeValue, h.opens.1]
  simp only [beq_iff_eq, h1, h2, h3, h4, h5, h6, if_false]
  cases takeNumeral (b :: rest) <;> rfl

/-! ### Numbers -/

/-- What the characters of a number, or of what stands for none, are read as. -/
inductive Denotes : List Char → Json → Prop
  | null : Denotes "null".toList null
  | numeral {numeral : Numeral} (h : numeral.WellFormed) : Denotes numeral.chars numeral.value

theorem Numeral.head_chars {numeral : Numeral} (h : numeral.WellFormed) :
    ∃ b tail, encoded numeral.chars = b :: tail ∧ OpensNumeral b := by
  obtain ⟨b, tail, hb, -, hdigit⟩ := head_digitChars h.whole
    (encoded (fractionChars numeral.fraction ++ exponentChars numeral.exponent))
  rw [← encoded_append] at hb
  cases hsign : numeral.negative with
  | false => exact ⟨b, tail, by simp [Numeral.chars, hsign, ← hb], .inr hdigit⟩
  | true => exact ⟨0x2D, b :: tail, by simp [Numeral.chars, hsign, ← hb]; rfl, .inl rfl⟩

namespace Denotes

variable {cs : List Char} {json : Json}

theorem head (h : Denotes cs json) : ∃ b tail, encoded cs = b :: tail ∧ Opens b := by
  cases h with
  | null => exact ⟨0x6E, _, rfl, fun _ => rfl, by decide⟩
  | numeral hwell =>
    obtain ⟨b, tail, hb, hopens⟩ := Numeral.head_chars hwell
    exact ⟨b, tail, hb, hopens.opens⟩

theorem takeValue_eq (h : Denotes cs json) (fuel : Nat) {rest : Bytes} (hr : Delimited rest) :
    takeValue (fuel + 1) (encoded cs ++ rest) = some (json, rest) := by
  cases h with
  | null => rfl
  | numeral hwell =>
    have htake := takeNumeral_chars hwell hr
    obtain ⟨b, tail, hb, hopens⟩ := Numeral.head_chars hwell
    rw [hb, List.cons_append] at htake ⊢
    rw [takeValue_numeral hopens, htake]
    rfl

theorem parse_eq (h : Denotes cs json) : parse (encoded cs) = some json := by
  have htake : takeValue (2 * (encoded cs).length + 2) (encoded cs ++ []) = some (json, []) :=
    h.takeValue_eq _ (fun _ _ h => nomatch h)
  rw [List.append_nil] at htake
  rw [parse, htake]
  rfl

/-- It is read as a scalar. -/
theorem levels_eq (h : Denotes cs json) : json.levels = 0 := by
  cases h with
  | null => rfl
  | numeral hwell =>
    simp only [Numeral.value]
    split
    · split
      · split
        · rfl
        · split <;> rfl
      · split <;> rfl
    · split <;> rfl

end Denotes

/-- A whole number is read as itself. -/
theorem denotes_integer {n : Int} (h : Fits64 n) : Denotes (integer n).chars (integer n) := by
  rw [chars, Numeral.chars_ofInt, ← Numeral.value_ofInt h]
  exact .numeral (wellFormed_decimals _ _)

/-- A text that is a numeral or `null` is read as something. -/
theorem denotes_write {style : FloatNotation} (hsign : style.plusSign = true)
    (hnull : ∀ text ∈ [style.nan, style.infinity, style.negativeInfinity], text = "null")
    (f : BinaryFormat) (bits : Nat) :
    ∃ json, Denotes (style.write (.ofBits f bits)).toList json := by
  rcases style.write_spelled hsign f bits with hnumeral | htext
  · obtain ⟨-, numeral, hwell, -, hchars⟩ := hnumeral
    exact ⟨numeral.value, by rw [hchars]; exact .numeral hwell⟩
  · exact ⟨null, by rw [hnull _ htext]; exact .null⟩

theorem denotes_float (bits : UInt64) : Denotes (float bits).chars (float bits).reread := by
  obtain ⟨json, hjson⟩ : ∃ json, Denotes (float bits).chars json :=
    denotes_write rfl (by decide) .double bits.toNat
  rw [reread, bytes_eq, hjson.parse_eq]
  exact hjson

theorem denotes_single (bits : UInt32) : Denotes (single bits).chars (single bits).reread := by
  obtain ⟨json, hjson⟩ : ∃ json, Denotes (single bits).chars json :=
    denotes_write rfl (by decide) .single bits.toNat
  rw [reread, bytes_eq, hjson.parse_eq]
  exact hjson

/-- A written value is not empty, and starts with no blank and no bracket that closes. -/
theorem head_chars (json : Json) (h : Writable json) :
    ∃ b tail, encoded json.chars = b :: tail ∧ Opens b := by
  have opens (b : UInt8) (hb : b = 0x6E ∨ b = 0x74 ∨ b = 0x66 ∨ b = 0x22 ∨ b = 0x5B ∨ b = 0x7B) :
      Opens b := by
    rcases hb with rfl | rfl | rfl | rfl | rfl | rfl <;> exact ⟨fun _ => rfl, by decide⟩
  cases json with
  | null => exact ⟨_, _, rfl, opens _ (by decide)⟩
  | bool b => cases b <;> exact ⟨_, _, rfl, opens _ (by decide)⟩
  | integer n => exact (denotes_integer h).head
  | float bits => exact (denotes_float bits).head
  | single bits => exact (denotes_single bits).head
  | string s => exact ⟨0x22, _, rfl, opens _ (by decide)⟩
  | array items => exact ⟨0x5B, _, rfl, opens _ (by decide)⟩
  | object members => exact ⟨0x7B, _, rfl, opens _ (by decide)⟩
  | unreadable => exact h.elim

theorem length_chars_pos (json : Json) (h : Writable json) : 0 < json.chars.length := by
  obtain ⟨b, tail, hb, -⟩ := head_chars json h
  rcases hc : json.chars with _ | ⟨c, cs⟩
  · rw [hc] at hb; simp at hb
  · simp

/-! ### Strings, arrays and objects -/

theorem encoded_quote (s : String) (rest : Bytes) : encoded (quote s) ++ rest
    = 0x22 :: (encoded (s.toList.flatMap escapeChar) ++ 0x22 :: rest) := by
  rw [quote, List.cons_append, encoded, List.flatMap_cons, List.flatMap_append]
  simp [show String.utf8EncodeChar '"' = [0x22] by decide]

theorem takeValue_string (fuel : Nat) (s : String) (rest : Bytes) :
    takeValue (fuel + 1) (encoded (quote s) ++ rest) = some (string s, rest) := by
  obtain ⟨pieces, ht, hs⟩ := takePieces_text s rest
  rw [encoded_quote, takeValue]
  simp [skipBlanks, ht, hs]

theorem takeValue_items {fuel : Nat} {bytes rest : Bytes} {items : List Json}
    (hb : ∃ b tail, bytes = b :: tail ∧ Opens b) (h : takeItems fuel bytes = some (items, rest)) :
    takeValue (fuel + 1) (0x5B :: bytes) = some (array items, rest) := by
  obtain ⟨b, tail, rfl, hb⟩ := hb
  rw [takeValue, show skipBlanks (0x5B :: b :: tail) = 0x5B :: b :: tail from rfl]
  simp [hb.1, hb.2, h]

theorem objectOf_named (members : List (String × Json)) :
    objectOf (members.map fun m => (some m.1, m.2)) = object members := by
  have : (members.map fun m => (some m.1, m.2)).mapM
      (fun (m : Option String × Json) => m.1.map fun n => (n, m.2)) = some members := by
    induction members with
    | nil => rfl
    | cons m members ih => rw [List.map_cons, List.mapM_cons, ih]; rfl
  simp only [objectOf]
  rw [this]

theorem takeValue_members {fuel : Nat} {bytes rest : Bytes} {members : List (String × Json)}
    (hb : ∃ tail, bytes = 0x22 :: tail)
    (h : takeMembers fuel bytes = some (members.map fun m => (some m.1, m.2), rest)) :
    takeValue (fuel + 1) (0x7B :: bytes) = some (object members, rest) := by
  obtain ⟨tail, rfl⟩ := hb
  simp [takeValue, skipBlanks, h, objectOf_named]

theorem takeItems_last {fuel : Nat} {bytes rest : Bytes} {item : Json}
    (h : takeValue fuel bytes = some (item, 0x5D :: rest)) :
    takeItems (fuel + 1) bytes = some ([item], rest) := by
  simp [takeItems, h, skipBlanks]

theorem takeItems_next {fuel : Nat} {bytes rest rest' : Bytes} {item : Json} {items : List Json}
    (h : takeValue fuel bytes = some (item, 0x2C :: rest))
    (hs : takeItems fuel rest = some (items, rest')) :
    takeItems (fuel + 1) bytes = some (item :: items, rest') := by
  simp [takeItems, h, skipBlanks, hs]

theorem takeMembers_last {fuel : Nat} {name : String} {bytes rest : Bytes} {value : Json}
    (h : takeValue fuel bytes = some (value, 0x7D :: rest)) :
    takeMembers (fuel + 1) (encoded (quote name) ++ 0x3A :: bytes)
      = some ([(some name, value)], rest) := by
  obtain ⟨pieces, ht, hs⟩ := takePieces_text name (0x3A :: bytes)
  rw [encoded_quote, takeMembers]
  simp [skipBlanks, ht, hs, h]

theorem takeMembers_next {fuel : Nat} {name : String} {bytes rest rest' : Bytes} {value : Json}
    {members : List (Option String × Json)}
    (h : takeValue fuel bytes = some (value, 0x2C :: rest))
    (hs : takeMembers fuel rest = some (members, rest')) :
    takeMembers (fuel + 1) (encoded (quote name) ++ 0x3A :: bytes)
      = some ((some name, value) :: members, rest') := by
  obtain ⟨pieces, ht, hn⟩ := takePieces_text name (0x3A :: bytes)
  rw [encoded_quote, takeMembers]
  simp [skipBlanks, ht, hn, h, hs]

/-! ### The bytes of composite values -/

theorem encoded_array (items : List Json) (rest : Bytes) :
    encoded (array items).chars ++ rest
      = 0x5B :: (encoded (separate [','] (itemChars items)) ++ 0x5D :: rest) := by
  rw [chars, encoded_append, List.append_assoc]
  rfl

theorem encoded_object (members : List (String × Json)) (rest : Bytes) :
    encoded (object members).chars ++ rest
      = 0x7B :: (encoded (separate [','] (memberChars members)) ++ 0x7D :: rest) := by
  rw [chars, encoded_append, List.append_assoc]
  rfl

theorem encoded_separate (x y : List Char) (xs : List (List Char)) (rest : Bytes) :
    encoded (separate [','] (x :: y :: xs)) ++ rest
      = encoded x ++ 0x2C :: (encoded (separate [','] (y :: xs)) ++ rest) := by
  rw [separate, encoded_append, encoded_append, List.append_assoc, List.append_assoc]
  · rfl
  · simp

theorem encoded_member (name : String) (value : Json) (rest : Bytes) :
    encoded (quote name ++ ':' :: value.chars) ++ rest
      = encoded (quote name) ++ 0x3A :: (encoded value.chars ++ rest) := by
  rw [encoded_append, List.append_assoc]
  rfl

theorem length_separate (x y : List Char) (xs : List (List Char)) :
    (separate [','] (x :: y :: xs)).length
      = x.length + 1 + (separate [','] (y :: xs)).length := by
  rw [separate, List.length_append, List.length_append, List.length_singleton]
  simp

/-- A list of items starts as its first item does. -/
theorem head_items (item : Json) (items : List Json) (rest : Bytes) (h : Writable item) :
    ∃ b tail, encoded (separate [','] (itemChars (item :: items))) ++ rest = b :: tail ∧
      Opens b := by
  obtain ⟨b, tail, hb, ho⟩ := head_chars item h
  cases items with
  | nil => exact ⟨b, tail ++ rest, by rw [itemChars, itemChars, separate, hb]; rfl, ho⟩
  | cons next items =>
    exact ⟨b, _, by rw [itemChars, itemChars, encoded_separate, hb]; rfl, ho⟩

theorem head_members (member : String × Json) (members : List (String × Json)) (rest : Bytes) :
    ∃ tail, encoded (separate [','] (memberChars (member :: members))) ++ rest = 0x22 :: tail := by
  obtain ⟨name, value⟩ := member
  cases members with
  | nil => exact ⟨_, by rw [memberChars, memberChars, separate, encoded_member, encoded_quote]⟩
  | cons next members =>
    exact ⟨_, by rw [memberChars, memberChars, encoded_separate, encoded_member, encoded_quote]⟩

/-! ### Reading what was written -/

mutual

/-- A writable value is read from its text up to a delimiter. The fuel is bounded by the length of
the text: every level of an array or object takes two characters at least. -/
theorem takeValue_chars : ∀ (fuel : Nat) (json : Json) (rest : Bytes), Writable json →
    2 * json.chars.length ≤ fuel → Delimited rest →
      takeValue fuel (encoded json.chars ++ rest) = some (json.reread, rest)
  | 0, json, _, h, hf, _ => by
    have := length_chars_pos json h
    omega
  | fuel + 1, null, _, _, _, _ => rfl
  | fuel + 1, bool true, _, _, _, _ => rfl
  | fuel + 1, bool false, _, _, _, _ => rfl
  | fuel + 1, integer _, _, h, _, hr => (denotes_integer h).takeValue_eq fuel hr
  | fuel + 1, float bits, _, _, _, hr => (denotes_float bits).takeValue_eq fuel hr
  | fuel + 1, single bits, _, _, _, hr => (denotes_single bits).takeValue_eq fuel hr
  | fuel + 1, string s, rest, _, _, _ => takeValue_string fuel s rest
  | fuel + 1, array [], _, _, _, _ => rfl
  | fuel + 1, array (item :: items), rest, h, hf, _ => by
    simp only [chars, List.cons_append, List.length_cons, List.length_append] at hf
    rw [encoded_array]
    exact takeValue_items (head_items item items _ h.1)
      (takeItems_chars fuel item items rest h (by omega))
  | fuel + 1, object [], _, _, _, _ => rfl
  | fuel + 1, object ((name, value) :: members), rest, h, hf, _ => by
    simp only [chars, List.cons_append, List.length_cons, List.length_append] at hf
    rw [encoded_object]
    exact takeValue_members (head_members _ members _)
      (takeMembers_chars fuel name value members rest h (by omega))
  | _ + 1, unreadable, _, h, _, _ => h.elim

theorem takeItems_chars : ∀ (fuel : Nat) (item : Json) (items : List Json) (rest : Bytes),
    WritableItems (item :: items) →
    2 * (separate [','] (itemChars (item :: items))).length + 1 ≤ fuel →
      takeItems fuel (encoded (separate [','] (itemChars (item :: items))) ++ 0x5D :: rest)
        = some (rereadItems (item :: items), rest)
  | 0, _, _, _, _, hf => by omega
  | fuel + 1, item, [], rest, h, hf => by
    simp only [itemChars, separate] at hf ⊢
    exact takeItems_last (takeValue_chars fuel item _ h.1 (by omega) (.cons (by simp) _))
  | fuel + 1, item, next :: items, rest, h, hf => by
    simp only [itemChars, length_separate] at hf
    rw [itemChars, itemChars, encoded_separate]
    exact takeItems_next (takeValue_chars fuel item _ h.1 (by omega) (.cons (by simp) _))
      (takeItems_chars fuel next items rest h.2 (by rw [itemChars]; omega))

theorem takeMembers_chars : ∀ (fuel : Nat) (name : String) (value : Json)
    (members : List (String × Json)) (rest : Bytes), WritableMembers ((name, value) :: members) →
    2 * (separate [','] (memberChars ((name, value) :: members))).length + 1 ≤ fuel →
      takeMembers fuel
          (encoded (separate [','] (memberChars ((name, value) :: members))) ++ 0x7D :: rest)
        = some ((rereadMembers ((name, value) :: members)).map fun m => (some m.1, m.2), rest)
  | 0, _, _, _, _, _, hf => by omega
  | fuel + 1, name, value, [], rest, h, hf => by
    simp only [memberChars, separate, List.length_append, List.length_cons] at hf
    rw [memberChars, memberChars, separate, encoded_member]
    exact takeMembers_last (takeValue_chars fuel value _ h.1 (by omega) (.cons (by simp) _))
  | fuel + 1, name, value, (next, value') :: members, rest, h, hf => by
    simp only [memberChars, length_separate, List.length_append, List.length_cons] at hf
    rw [memberChars, memberChars, encoded_separate, encoded_member]
    exact takeMembers_next (takeValue_chars fuel value _ h.1 (by omega) (.cons (by simp) _))
      (takeMembers_chars fuel next value' members rest h.2 (by rw [memberChars]; omega))

end

theorem length_le_encoded (cs : List Char) : cs.length ≤ (encoded cs).length := by
  induction cs with
  | nil => exact Nat.le_refl _
  | cons c cs ih =>
    have := List.length_pos_iff.mpr (String.utf8EncodeChar_ne_nil (c := c))
    rw [encoded, List.flatMap_cons, List.length_append, List.length_cons]
    rw [encoded] at ih
    omega

/-- What the text of a writable value is read as. -/
theorem parse_bytes (json : Json) (h : Writable json) : parse json.bytes = some json.reread := by
  have hl := length_le_encoded json.chars
  have hv := takeValue_chars (2 * (encoded json.chars).length + 2) json [] h (by omega)
    (fun _ _ h => nomatch h)
  rw [List.append_nil] at hv
  rw [bytes_eq, parse, hv]
  rfl

/-- What a decoder makes of the text of a writable value. -/
theorem decodeBytes_bytes {α : Type} (decoder : Decoder α) (json : Json) (h : Writable json) :
    decodeBytes decoder json.bytes = decoder .top json.reread := by
  rw [decodeBytes, parse_bytes json h]
  rfl

end StagedQuery.Json

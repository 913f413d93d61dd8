import StagedQuery.Identifier

/-!
# Identifiers are read back

`Identifier.ofText?_text`: the text of an identifier stands for the identifier. Its digits are those
of the number, read from the left; the groups only put hyphens between them.
-/

namespace StagedQuery.Identifier

/-- The last `n` hexadecimal digits of a number, as numbers. -/
def nibbles : Nat → Nat → List Nat
  | 0, _ => []
  | n + 1, value => nibbles n (value / 16) ++ [value % 16]

theorem hexDigits_eq_map (n value : Nat) :
    hexDigits n value = (nibbles n value).map Json.hexChar := by
  induction n generalizing value with
  | zero => rfl
  | succ n ih => rw [hexDigits, nibbles, ih, List.map_append, List.map_singleton]

theorem length_nibbles (n value : Nat) : (nibbles n value).length = n := by
  induction n generalizing value with
  | zero => rfl
  | succ n ih => rw [nibbles, List.length_append, ih, List.length_singleton]

theorem lt_of_mem_nibbles {n value d : Nat} (h : d ∈ nibbles n value) : d < 16 := by
  induction n generalizing value with
  | zero => cases h
  | succ n ih =>
    rw [nibbles, List.mem_append, List.mem_singleton] at h
    rcases h with h | rfl
    · exact ih h
    · exact Nat.mod_lt _ (by decide)

/-- The digits make up the number, as far as they go. -/
theorem foldl_nibbles (n value : Nat) :
    (nibbles n value).foldl (fun n d => n * 16 + d) 0 = value % Nat.pow 16 n := by
  induction n generalizing value with
  | zero => exact (Nat.mod_one value).symm
  | succ n ih =>
    have hpow : Nat.pow 16 (n + 1) = 16 * Nat.pow 16 n := Nat.mul_comm _ _
    rw [nibbles, List.foldl_append, ih, List.foldl_cons, List.foldl_nil, hpow, Nat.mod_mul]
    omega

theorem hexDigit?_hexChar : ∀ d < 16,
    Json.hexDigit? (UInt8.ofNat (min (Json.hexChar d).toNat 255)) = some d := by decide

theorem length_digits (id : Identifier) : id.digits.length = 32 := by
  rw [digits, hexDigits_eq_map, List.length_map, length_nibbles]

theorem mapM_hexDigit? {ds : List Nat} (h : ∀ d ∈ ds, d < 16) :
    (ds.map Json.hexChar).mapM (fun c => Json.hexDigit? (UInt8.ofNat (min c.toNat 255))) =
      some ds := by
  induction ds with
  | nil => rfl
  | cons d ds ih =>
    rw [List.map_cons, List.mapM_cons, hexDigit?_hexChar d (h d List.mem_cons_self),
      ih fun d hd => h d (List.mem_cons_of_mem _ hd)]
    rfl

theorem ofDigits?_digits (id : Identifier) : ofDigits? id.digits = some id := by
  have hvalue : (nibbles 32 id.bits.toNat).foldl (fun n d => n * 16 + d) 0 = id.bits.toNat := by
    rw [foldl_nibbles]
    exact Nat.mod_eq_of_lt id.bits.isLt
  rw [ofDigits?, if_pos id.length_digits, digits, hexDigits_eq_map,
    mapM_hexDigit? fun _ => lt_of_mem_nibbles]
  simp [hvalue]

/-- Five groups of digits, with hyphens between them. -/
theorem ofGroups?_join {a b c d e : List Char} (ha : a.length = 8) (hb : b.length = 4)
    (hc : c.length = 4) (hd : d.length = 4) (he : e.length = 12) :
    ofGroups? (a ++ '-' :: b ++ '-' :: c ++ '-' :: d ++ '-' :: e) =
      ofDigits? (a ++ b ++ c ++ d ++ e) := by
  have hlength : (a ++ '-' :: b ++ '-' :: c ++ '-' :: d ++ '-' :: e).length = 36 := by
    simp [ha, hb, hc, hd, he]
  have hhyphens : [8, 13, 18, 23].all
      (fun i => (a ++ '-' :: b ++ '-' :: c ++ '-' :: d ++ '-' :: e)[i]? == some '-') = true := by
    simp [List.getElem?_append, ha, hb, hc, hd]
  rw [ofGroups?, if_pos ⟨hlength, hhyphens⟩]
  simp [List.drop_append, ha, hb, hc, hd, List.drop_eq_nil_of_le]

/-- The next items of a list, and those behind them. -/
theorem take_drop_append (ds : List Char) (start count : Nat) :
    (ds.drop start).take count ++ ds.drop (start + count) = ds.drop start := by
  rw [← List.drop_drop, List.take_append_drop]

/-- The text of an identifier stands for it. -/
theorem ofText?_text (id : Identifier) : ofText? id.text = some id := by
  have hlength := id.length_digits
  have hgroup (start count : Nat) (h : start + count ≤ 32) :
      ((id.digits.drop start).take count).length = count := by
    rw [List.length_take, List.length_drop, hlength]
    omega
  have hjoin := ofGroups?_join (hgroup 0 8 (by decide)) (hgroup 8 4 (by decide))
    (hgroup 12 4 (by decide)) (hgroup 16 4 (by decide)) (hgroup 20 12 (by decide))
  have hdigits : (id.digits.drop 0).take 8 ++ (id.digits.drop 8).take 4
      ++ (id.digits.drop 12).take 4 ++ (id.digits.drop 16).take 4 ++ (id.digits.drop 20).take 12
        = id.digits := by
    have htail : (id.digits.drop 20).length = 12 := by rw [List.length_drop, hlength]
    rw [List.take_of_length_le (Nat.le_of_eq htail), List.append_assoc, take_drop_append, List.append_assoc, take_drop_append,
      List.append_assoc, take_drop_append, take_drop_append]
    rfl
  rw [hdigits, ofDigits?_digits] at hjoin
  have htext : id.text.toList.length = 36 := by
    simp [text, hlength]
  have hgroups : ofText? id.text = ofGroups? id.text.toList := by
    simp [ofText?, htext]
  rw [hgroups, text, String.toList_ofList]
  exact hjoin

end StagedQuery.Identifier

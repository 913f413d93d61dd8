import StagedQuery.Proofs.Json.Scalars

/-!
# Floating-point numbers are written as numerals

Whatever number is written into a message, its text is a numeral: there are digits on both sides
of a point and in an exponent, and no needless zero at the front (`FloatNotation.write_spelled`).
The last needs that the shortest digits of a number that is not zero are not zero either
(`Binary.shortest_pos`). What is no number is written as `null`.
-/

namespace StagedQuery

namespace Binary

theorem trim_pos (fuel : Nat) {d : Digits} (h : 0 < d.digits) : 0 < (trim fuel d).digits := by
  induction fuel generalizing d with
  | zero => exact h
  | succ fuel ih =>
    rw [trim]
    split
    case isTrue hzero => exact ih (by show 0 < d.digits / 10; omega)
    case isFalse => exact h

/-- Zero lies below the interval of every positive number. -/
theorem shortest_pos (tie : Tie) {m : Nat} (hm : 0 < m) (q : Int) (wide : Bool) :
    0 < (shortest tie m q wide).digits := by
  unfold shortest
  extract_lets unit low high closed inside distance lead candidate found
  have hlow : 0 < low := by
    simp only [low]
    split <;> omega
  have hunit : 0 < unit.1 := by
    simp only [unit]
    split
    · exact Nat.pow_pos (by decide)
    · exact Nat.one_pos
  have hinside : ∀ k e, inside k e = true → 0 < k := by
    intro k e hk
    refine Nat.pos_of_ne_zero ?_
    rintro rfl
    have hden : 0 < (gridPoint 0 e).2 := by
      unfold gridPoint
      split
      · exact Nat.one_pos
      · exact Nat.pow_pos (by decide)
    have hnum : (gridPoint 0 e).1 = 0 := by
      unfold gridPoint
      split
      · exact Nat.zero_mul _
      · rfl
    have hscale : 0 < low * (unit.1 * (gridPoint 0 e).2) :=
      Nat.mul_pos hlow (Nat.mul_pos hunit hden)
    simp only [inside, hnum, Nat.zero_mul] at hk
    split at hk
    · have hle := of_decide_eq_true (Bool.and_eq_true_iff.mp hk).1
      exact Nat.not_le.mpr hscale hle
    · have hlt := of_decide_eq_true (Bool.and_eq_true_iff.mp hk).1
      exact Nat.not_lt_zero _ hlt
  have hcandidate : ∀ n d, candidate n = some d → 0 < d.digits := by
    intro n d hd
    dsimp -zeta only [candidate] at hd
    extract_lets e below at hd
    split at hd
    case h_1 hbelow habove =>
      cases hd
      dsimp only
      split
      · exact hinside _ _ hbelow
      · split
        · exact hinside _ _ hbelow
        · exact Nat.succ_pos _
    case h_2 hbelow habove =>
      cases hd
      exact hinside _ _ hbelow
    case h_3 =>
      cases hd
      exact Nat.succ_pos _
    case h_4 => cases hd
  refine trim_pos 400 ?_
  simp only [found]
  cases hfound : (List.range 17).findSome? candidate with
  | none => exact hm
  | some d =>
    obtain ⟨n, -, hn⟩ := List.exists_of_findSome?_eq_some hfound
    exact hcandidate n d hn

theorem finite_pos {f : BinaryFormat} {bits m : Nat} {negative wide : Bool} {q : Int}
    (h : ofBits f bits = .finite negative m q wide) : 0 < m := by
  simp only [ofBits] at h
  split at h
  · split at h <;> cases h
  · split at h
    · split at h
      · cases h
      · rename_i hzero
        cases h
        exact Nat.pos_of_ne_zero (by simpa using hzero)
    · cases h
      have hpow : 0 < Nat.pow 2 f.fractionBits := Nat.pow_pos (by decide)
      omega

end Binary

namespace FloatNotation

open Json (digitChars decimals AreDigits Numeral fractionChars exponentChars)

/-- A text that is a numeral, with a minus sign or without. -/
def IsNumeral (negative : Bool) (cs : List Char) : Prop :=
  ∃ numeral : Numeral, numeral.WellFormed ∧ numeral.negative = negative ∧ cs = numeral.chars

theorem IsNumeral.of_parts {whole : List Nat} {fraction : Option (List Nat)}
    {exponent : Option (Bool × List Nat)} (hwhole : AreDigits whole)
    (hlead : ∀ ds, whole = 0 :: ds → ds = []) (hfraction : ∀ ds, fraction = some ds → AreDigits ds)
    (hexponent : ∀ negative ds, exponent = some (negative, ds) → AreDigits ds) :
    IsNumeral false (digitChars whole ++ fractionChars fraction ++ exponentChars exponent) :=
  ⟨⟨false, whole, fraction, exponent⟩, ⟨hwhole, hlead, hfraction, hexponent⟩, rfl, rfl⟩

theorem IsNumeral.minus {cs : List Char} (h : IsNumeral false cs) : IsNumeral true ('-' :: cs) := by
  obtain ⟨numeral, hwell, hpositive, rfl⟩ := h
  refine ⟨{ numeral with negative := true },
    ⟨hwell.whole, hwell.lead, hwell.fraction, hwell.exponent⟩, rfl, ?_⟩
  simp [Numeral.chars, hpositive]

theorem toList_toString (n : Nat) : (toString n).toList = digitChars (decimals n) := by
  show (Nat.repr n).toList = _
  rw [Nat.toList_repr]
  exact Json.toDigits_eq_map n

theorem length_toString (n : Nat) : (toString n).length = (decimals n).length := by
  rw [← String.length_toList, toList_toString, digitChars, List.length_map]

theorem toList_zeros (n : Nat) :
    (String.ofList (List.replicate n '0')).toList = digitChars (List.replicate n 0) := by
  rw [String.toList_ofList, digitChars, List.map_replicate]
  rfl

theorem lt_ten_zeros {n d : Nat} (h : d ∈ List.replicate n 0) : d < 10 := by
  rw [List.eq_of_mem_replicate h]
  decide

theorem areDigits_append_left {ds es : List Nat} (h : AreDigits ds) (hes : ∀ e ∈ es, e < 10) :
    AreDigits (ds ++ es) :=
  ⟨List.append_ne_nil_of_left_ne_nil h.ne_nil _, List.forall_mem_append.mpr ⟨h.lt_ten, hes⟩⟩

theorem areDigits_append_right {ds es : List Nat} (h : AreDigits es) (hds : ∀ d ∈ ds, d < 10) :
    AreDigits (ds ++ es) :=
  ⟨List.append_ne_nil_of_right_ne_nil _ h.ne_nil, List.forall_mem_append.mpr ⟨hds, h.lt_ten⟩⟩

variable {d : Digits}

/-- Digits in positional form. The point stands behind the digits, among them or before them. -/
theorem layPositional_spelled (pointZero : Bool) (hd : 0 < d.digits) :
    IsNumeral false (layPositional pointZero d).toList := by
  have hdigits := Json.areDigits_decimals d.digits
  obtain ⟨lead, others, hlead, hpos⟩ := Json.decimals_pos hd
  have hnonzero : ∀ es ds, decimals d.digits ++ es = 0 :: ds → ds = [] := by
    intro es ds heq
    rw [hlead] at heq
    obtain ⟨rfl, -⟩ := List.cons.inj heq
    exact absurd hpos (Nat.lt_irrefl 0)
  have hexponents : ∀ negative ds, (none : Option (Bool × List Nat)) = some (negative, ds) →
      AreDigits ds := by
    rintro _ _ ⟨⟩
  unfold layPositional
  extract_lets text zeros places count
  by_cases hexponent : 0 ≤ d.exponent
  · rw [if_pos hexponent]
    have htext : (text ++ zeros d.exponent.toNat ++ (if pointZero then ".0" else "")).toList =
        digitChars (decimals d.digits ++ List.replicate d.exponent.toNat 0)
          ++ fractionChars (if pointZero then some [0] else none) ++ exponentChars none := by
      rw [String.toList_append, String.toList_append, toList_toString, toList_zeros]
      cases pointZero <;> simp [digitChars, fractionChars, exponentChars]
    rw [htext]
    refine .of_parts (areDigits_append_left hdigits fun _ => lt_ten_zeros) (hnonzero _) ?_
      hexponents
    cases pointZero with
    | false => rintro ds ⟨⟩
    | true =>
      rintro ds ⟨⟩
      exact .cons (by decide) (by simp)
  · rw [if_neg hexponent]
    have hcount : count = (decimals d.digits).length := length_toString d.digits
    by_cases hplaces : places < count
    · rw [if_pos hplaces]
      have htext : (String.ofList (text.toList.take (count - places)) ++ "."
          ++ String.ofList (text.toList.drop (count - places))).toList =
          digitChars ((decimals d.digits).take (count - places))
            ++ fractionChars (some ((decimals d.digits).drop (count - places)))
            ++ exponentChars none := by
        have hchars : text.toList = digitChars (decimals d.digits) := toList_toString _
        rw [hchars]
        simp [digitChars, fractionChars, exponentChars]
      have hplace : 0 < places := by
        simp only [places]
        omega
      rw [htext]
      refine .of_parts ⟨?_, fun e he => hdigits.lt_ten e (List.mem_of_mem_take he)⟩ ?_ ?_ hexponents
      · rw [Ne, List.take_eq_nil_iff]
        exact not_or.mpr ⟨by omega, hdigits.ne_nil⟩
      · rw [hlead, List.take_cons (by omega)]
        rintro ds ⟨⟩
        exact absurd hpos (Nat.lt_irrefl 0)
      · rintro ds ⟨⟩
        refine ⟨?_, fun e he => hdigits.lt_ten e (List.mem_of_mem_drop he)⟩
        rw [Ne, List.drop_eq_nil_iff]
        omega
    · rw [if_neg hplaces]
      have htext : ("0." ++ zeros (places - count) ++ text).toList =
          digitChars [0]
            ++ fractionChars (some (List.replicate (places - count) 0 ++ decimals d.digits))
            ++ exponentChars none := by
        rw [String.toList_append, String.toList_append, toList_toString, toList_zeros]
        simp [digitChars, fractionChars, exponentChars]
      rw [htext]
      refine .of_parts (.cons (by decide) (by simp)) ?_ ?_ hexponents
      · rintro ds ⟨⟩
        rfl
      · rintro ds ⟨⟩
        exact areDigits_append_right hdigits fun _ => lt_ten_zeros

/-- Digits in exponent form. -/
theorem layExponent_spelled (hd : 0 < d.digits) : IsNumeral false (layExponent true d).toList := by
  have hdigits := Json.areDigits_decimals d.digits
  obtain ⟨lead, others, hlead, hpos⟩ := Json.decimals_pos hd
  have hlt : lead < 10 := hdigits.lt_ten lead (hlead ▸ List.mem_cons_self)
  unfold layExponent
  extract_lets text exponent mantissa sign
  have hchars : text = digitChars (lead :: others) := (toList_toString _).trans (by rw [hlead])
  have hmantissa : mantissa.toList =
      digitChars [lead] ++ fractionChars (if others = [] then none else some others) := by
    simp only [mantissa, hchars]
    cases others with
    | nil => simp [digitChars, fractionChars]
    | cons next others => simp [digitChars, fractionChars]
  have htext : (mantissa ++ "e" ++ sign ++ toString exponent.natAbs).toList =
      digitChars [lead] ++ fractionChars (if others = [] then none else some others)
        ++ exponentChars (some (decide (¬ 0 ≤ exponent), decimals exponent.natAbs)) := by
    rw [String.toList_append, String.toList_append, String.toList_append, hmantissa,
      toList_toString]
    simp only [sign]
    by_cases hexponent : 0 ≤ exponent
    · simp [hexponent, exponentChars]
    · simp [hexponent, exponentChars]
  rw [htext]
  refine .of_parts (.cons hlt (by simp)) ?_ ?_ ?_
  · rintro ds ⟨⟩
    rfl
  · intro ds hds
    obtain ⟨hothers, hds⟩ := Option.ite_none_left_eq_some.mp hds
    cases hds
    exact ⟨hothers, fun e he => hdigits.lt_ten e (hlead ▸ List.mem_cons_of_mem _ he)⟩
  · rintro negative ds ⟨⟩
    exact Json.areDigits_decimals _

/-- What is a number is written as a numeral. -/
theorem write_spelled (style : FloatNotation) (hsign : style.plusSign = true)
    (f : BinaryFormat) (bits : Nat) :
    (∃ negative, IsNumeral negative (style.write (.ofBits f bits)).toList) ∨
      style.write (.ofBits f bits) ∈ [style.nan, style.infinity, style.negativeInfinity] := by
  cases hbits : Binary.ofBits f bits with
  | nan => exact .inr (by simp [write])
  | infinite negative => cases negative <;> exact .inr (by simp [write])
  | zero negative =>
    have hzero : IsNumeral false ("0" ++ (if style.pointZero then ".0" else "")).toList := by
      have htext : ("0" ++ (if style.pointZero then ".0" else "")).toList =
          digitChars [0] ++ fractionChars (if style.pointZero then some [0] else none)
            ++ exponentChars none := by
        cases style.pointZero <;> rfl
      rw [htext]
      refine .of_parts (.cons (by decide) (by simp)) ?_ ?_ nofun
      · rintro ds ⟨⟩
        rfl
      · cases style.pointZero with
        | false => exact nofun
        | true =>
          rintro ds ⟨⟩
          exact .cons (by decide) (by simp)
    left
    cases negative with
    | false => exact ⟨false, hzero⟩
    | true => exact ⟨true, by simpa [write] using hzero.minus⟩
  | finite negative m q wide =>
    have hpos := Binary.shortest_pos style.tie (Binary.finite_pos hbits) q wide
    left
    rw [write]
    generalize Binary.shortest style.tie m q wide = d at hpos ⊢
    have hlaid : ∀ positional : Bool, IsNumeral false
        (if positional then layPositional style.pointZero d
          else layExponent style.plusSign d).toList := by
      intro positional
      cases positional with
      | true => exact layPositional_spelled style.pointZero hpos
      | false =>
        rw [hsign]
        exact layExponent_spelled hpos
    cases negative with
    | false =>
      refine ⟨false, ?_⟩
      rw [if_neg (by decide), String.empty_append]
      exact hlaid _
    | true =>
      refine ⟨true, ?_⟩
      rw [if_pos rfl, String.toList_append]
      exact (hlaid _).minus

end FloatNotation

end StagedQuery

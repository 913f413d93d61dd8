/-!
# Byte strings

A byte string is a list of bytes. Counts and fixed-width numbers travel as
little-endian words: `le32` and `le64` write a word, least significant byte first,
and `word32` and `word64` put one together again.
-/

namespace StagedQuery

/-- A byte string. -/
abbrev Bytes := List UInt8

namespace Bytes

/-- The four bytes of a word, least significant first. -/
def le32 (w : UInt32) : Bytes :=
  [UInt8.ofNat w.toNat, UInt8.ofNat (w.toNat / 0x100), UInt8.ofNat (w.toNat / 0x10000),
    UInt8.ofNat (w.toNat / 0x1000000)]

/-- The word of four bytes, least significant first. -/
def word32 (a b c d : UInt8) : UInt32 :=
  UInt32.ofNat (a.toNat + 0x100 * b.toNat + 0x10000 * c.toNat + 0x1000000 * d.toNat)

/-- The eight bytes of a long word, least significant first. -/
def le64 (w : UInt64) : Bytes :=
  le32 (UInt32.ofNat w.toNat) ++ le32 (UInt32.ofNat (w.toNat / 0x100000000))

/-- The long word of two words, the low one first. -/
def word64 (low high : UInt32) : UInt64 :=
  UInt64.ofNat (low.toNat + 0x100000000 * high.toNat)

/-- The bytes are cut after `n`, when there are that many. -/
def split? (n : Nat) (bytes : Bytes) : Option (Bytes × Bytes) :=
  let front := bytes.take n
  if front.length < n then none else some (front, bytes.drop n)

/-- The first word of a byte string, and what follows it. -/
def word32? : Bytes → Option (UInt32 × Bytes)
  | a :: b :: c :: d :: rest => some (word32 a b c d, rest)
  | _ => none

/-- The first long word of a byte string, and what follows it. -/
def word64? (bytes : Bytes) : Option (UInt64 × Bytes) := do
  let (low, rest) ← word32? bytes
  let (high, rest) ← word32? rest
  pure (word64 low high, rest)

/-! ### Small laws -/

theorem word32_le32 (w : UInt32) :
    word32 (UInt8.ofNat w.toNat) (UInt8.ofNat (w.toNat / 0x100))
      (UInt8.ofNat (w.toNat / 0x10000)) (UInt8.ofNat (w.toNat / 0x1000000)) = w := by
  apply UInt32.toNat_inj.mp
  have := w.toNat_lt
  simp only [word32, UInt32.toNat_ofNat', UInt8.toNat_ofNat']
  omega

theorem word64_halves (w : UInt64) :
    word64 (UInt32.ofNat w.toNat) (UInt32.ofNat (w.toNat / 0x100000000)) = w := by
  apply UInt64.toNat_inj.mp
  have := w.toNat_lt
  simp only [word64, UInt64.toNat_ofNat', UInt32.toNat_ofNat']
  omega

@[simp] theorem length_le32 (w : UInt32) : (le32 w).length = 4 := rfl

@[simp] theorem length_le64 (w : UInt64) : (le64 w).length = 8 := rfl

theorem word32?_le32 (w : UInt32) (rest : Bytes) : word32? (le32 w ++ rest) = some (w, rest) := by
  simp only [le32, List.cons_append, List.nil_append, word32?, word32_le32]

theorem word64?_le64 (w : UInt64) (rest : Bytes) : word64? (le64 w ++ rest) = some (w, rest) := by
  simp only [le64, List.append_assoc, word64?, word32?_le32, Option.bind_eq_bind,
    Option.bind_some, word64_halves, Option.pure_def]

theorem split?_append (a rest : Bytes) : split? a.length (a ++ rest) = some (a, rest) := by
  simp [split?]

theorem split?_eq_some {n : Nat} {bytes front rest : Bytes}
    (h : split? n bytes = some (front, rest)) : front.length = n ∧ bytes = front ++ rest := by
  rw [split?] at h
  split at h
  · cases h
  · rename_i hlong
    cases h
    exact ⟨Nat.le_antisymm (List.length_take_le n bytes) (Nat.not_lt.mp hlong),
      (List.take_append_drop n bytes).symm⟩

theorem split?_eq_none {n : Nat} {bytes : Bytes} (h : bytes.length < n) :
    split? n bytes = none := by
  rw [split?, List.take_of_length_le (Nat.le_of_lt h)]
  exact if_pos h

end Bytes

end StagedQuery

import StagedQuery.Bytes

/-!
# Hashing byte strings

SipHash with one round for every word of the input and three rounds at the end, under the
key zero. The input is read as little-endian words of eight bytes; the last word holds
the bytes that are left, and the length of the input in its high byte.
-/

namespace StagedQuery.SipHash

/-- The four words of the state. -/
structure State where
  v0 : UInt64
  v1 : UInt64
  v2 : UInt64
  v3 : UInt64
  deriving DecidableEq, Repr

/-- The state before any input. -/
def State.start : State :=
  ⟨0x736f6d6570736575, 0x646f72616e646f6d, 0x6c7967656e657261, 0x7465646279746573⟩

/-- The bits of a word rotated to the left. -/
def rotate (w : UInt64) (n : UInt64) : UInt64 := (w <<< n) ||| (w >>> (64 - n))

/-- One round. -/
def State.round (s : State) : State :=
  let v0 := s.v0 + s.v1
  let v1 := rotate s.v1 13 ^^^ v0
  let v0 := rotate v0 32
  let v2 := s.v2 + s.v3
  let v3 := rotate s.v3 16 ^^^ v2
  let v0 := v0 + v3
  let v3 := rotate v3 21 ^^^ v0
  let v2 := v2 + v1
  let v1 := rotate v1 17 ^^^ v2
  let v2 := rotate v2 32
  ⟨v0, v1, v2, v3⟩

/-- Take in one word. -/
def State.absorb (s : State) (w : UInt64) : State :=
  let s := State.round { s with v3 := s.v3 ^^^ w }
  { s with v0 := s.v0 ^^^ w }

/-- The hash of a state that has taken in everything. -/
def State.finish (s : State) : UInt64 :=
  let s := State.round (State.round (State.round { s with v2 := s.v2 ^^^ 0xff }))
  s.v0 ^^^ s.v1 ^^^ s.v2 ^^^ s.v3

/-- The number of some bytes, the first lowest. -/
def littleEndian (bytes : Bytes) : Nat :=
  bytes.foldr (fun b n => b.toNat + 256 * n) 0

/-- Take in the rest of an input of `length` bytes. -/
def absorbAll (length : Nat) (s : State) : Bytes → State
  | a :: b :: c :: d :: e :: f :: g :: h :: rest =>
    absorbAll length (s.absorb (UInt64.ofNat (littleEndian [a, b, c, d, e, f, g, h]))) rest
  | tail => s.absorb (UInt64.ofNat (littleEndian tail + length % 256 * 0x100000000000000))

/-- The hash of a byte string. -/
def hash (bytes : Bytes) : UInt64 := (absorbAll bytes.length .start bytes).finish

end StagedQuery.SipHash

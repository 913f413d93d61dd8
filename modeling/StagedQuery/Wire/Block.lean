import StagedQuery.Wire.Block.Repeats

/-!
# Compressed blocks

A compressed block is the length of its content, as a variable-length number, and the
elements that produce the content. `Block.compress` writes the elements that the search for
repeats finds. `Block.decompress` reads every block, and refuses those whose elements reach
outside the block or its content, or do not yield the announced length.
-/

namespace StagedQuery.Block

/-! ### Lengths -/

/-- The longest content that a block may announce. -/
def maxLength : Nat := 0xffffffff

/-- The length that the block of a content of `n` bytes has room for. A content is refused when
this is longer than a content may be. -/
def roomFor (n : Nat) : Nat := 32 + n + n / 6

/-- Write a number seven bits at a time, the low bits first; every byte but the last has
its high bit set. -/
def varint (n : Nat) : Bytes :=
  if n < 128 then [UInt8.ofNat n] else UInt8.ofNat (n % 128 + 128) :: varint (n / 128)
termination_by n

/-- Read a number of at most so many bytes. -/
def varint? : Nat → Bytes → Option (Nat × Bytes)
  | 0, _ => none
  | _ + 1, [] => none
  | places + 1, b :: rest =>
    if b < 0x80 then some (b.toNat, rest)
    else (varint? places rest).map fun (high, rest) => (b.toNat % 128 + 128 * high, rest)

/-- The announced length of a block, and its elements. A length takes five bytes at most. -/
def header? (block : Bytes) : Option (Nat × Bytes) := do
  let (length, elements) ← varint? 5 block
  if length ≤ maxLength then some (length, elements) else none

/-- The length of the content that a block announces; the empty block announces none. -/
def contentLength? (block : Bytes) : Option Nat :=
  if block.isEmpty then some 0 else (header? block).map (·.1)

/-! ### Writing -/

/-- The block of a content. -/
def compress (content : Bytes) : Bytes :=
  varint content.length ++ (contentElements content).flatMap Element.encode

/-! ### Reading -/

/-- Carry out elements until none is left. Every element takes at least its tag, so the
number of bytes bounds their number. -/
def produce? (length : Nat) : Nat → Bytes → Array UInt8 → Option (Array UInt8)
  | _, [], done => some done
  | 0, _ :: _, _ => none
  | fuel + 1, tag :: rest, done => do
    let (element, rest) ← Element.read? tag rest
    produce? length fuel rest (← element.carryOut length done)

/-- The content of a block. -/
def decompress (block : Bytes) : Option Bytes := do
  let (length, rest) ← header? block
  let content ← produce? length rest.length rest #[]
  if content.size = length then some content.toList else none

end StagedQuery.Block

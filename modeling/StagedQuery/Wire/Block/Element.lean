import StagedQuery.Bytes

/-!
# The elements of a compressed block

A compressed block is a sequence of elements. A literal brings bytes of its own; a copy
repeats bytes already produced, and may overlap the bytes it produces, so that one byte
and a copy of it make a run. The two low bits of an element's first byte, its tag, tell the
two apart, and how far back a copy may reach.

`Element.encode` writes an element and `Element.read?` reads one; `Element.carryOut` appends
what it stands for to what was produced before it.
-/

namespace StagedQuery.Block

/-- An element of a block. -/
inductive Element
  /-- Bytes of its own. -/
  | literal (bytes : Bytes)
  /-- The byte `offset` places back, `count` times over. -/
  | copy (offset count : Nat)
  deriving DecidableEq, Repr

namespace Element

/-! ### Writing -/

/-- The bytes of an element. The tag of a literal holds its length up to 60 bytes; behind
the tag of a longer one the length takes a byte, or two. A copy of at most eleven bytes from
fewer than 2048 places back takes two bytes, any other three. -/
def encode : Element → Bytes
  | .literal bytes =>
    let n := bytes.length - 1
    if n < 60 then UInt8.ofNat (n * 4) :: bytes
    else if n < 256 then UInt8.ofNat (60 * 4) :: UInt8.ofNat n :: bytes
    else UInt8.ofNat (61 * 4) :: UInt8.ofNat n :: UInt8.ofNat (n / 256) :: bytes
  | .copy offset count =>
    if count < 12 ∧ offset < 2048 then
      [UInt8.ofNat (offset / 256 * 32 + (count - 4) * 4 + 1), UInt8.ofNat offset]
    else
      [UInt8.ofNat ((count - 1) * 4 + 2), UInt8.ofNat offset, UInt8.ofNat (offset / 256)]

/-! ### Reading -/

/-- Read a number of `k` bytes, the low byte first. -/
def little : Nat → Bytes → Option (Nat × Bytes)
  | 0, rest => some (0, rest)
  | _ + 1, [] => none
  | k + 1, b :: rest => (little k rest).map fun (n, rest) => (b.toNat + 256 * n, rest)

/-- The element with a tag, and the bytes behind it. The length of a literal stands in its
tag, or in up to four bytes behind the tag. -/
def read? (tag : UInt8) (rest : Bytes) : Option (Element × Bytes) :=
  let high := tag.toNat / 4
  match tag.toNat % 4 with
  | 0 => do
    let (n, rest) ← if high < 60 then some (high, rest) else little (high - 59) rest
    let (bytes, rest) ← Bytes.split? (n + 1) rest
    some (.literal bytes, rest)
  | 1 => (little 1 rest).map fun (low, rest) => (.copy (high / 8 * 256 + low) (high % 8 + 4), rest)
  | 2 => (little 2 rest).map fun (offset, rest) => (.copy offset (high + 1), rest)
  | _ => (little 4 rest).map fun (offset, rest) => (.copy offset (high + 1), rest)

/-- Repeat the byte `offset` places back, `count` times. -/
def copyBack (offset : Nat) : Nat → Array UInt8 → Array UInt8
  | 0, done => done
  | count + 1, done => copyBack offset count (done.push (done[done.size - offset]?.getD 0))

/-- What is produced once an element is carried out. It must not reach beyond the announced
length, nor back beyond the first byte. -/
def carryOut (length : Nat) (done : Array UInt8) : Element → Option (Array UInt8)
  | .literal bytes =>
    if length < done.size + bytes.length then none else some (done ++ bytes)
  | .copy offset count =>
    if offset = 0 ∨ done.size < offset ∨ length < done.size + count then none
    else some (copyBack offset count done)

end Element

end StagedQuery.Block

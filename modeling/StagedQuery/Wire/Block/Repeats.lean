import StagedQuery.Wire.Block.Element

/-!
# The search for repeats

A content is cut into fragments, and a fragment is written as literals and copies. The search
goes through the fragment and remembers, for every hash of four bytes, where it last met four
such bytes. If the four bytes ahead were met before, the bytes passed since the last copy
become a literal, the repeat is copied as far as it goes, and the search goes on behind it.
Otherwise it steps ahead, by one byte at first, and by one more for every 32 bytes passed.
It stops short of the end of the fragment; what is left is a literal.

What the search remembers is only a guess: `repeatEnd` compares the bytes themselves, so the
elements stand for the fragment wherever the guesses point.
-/

namespace StagedQuery.Block

/-! ### Guesses -/

/-- Where four bytes were last met, by their hash. -/
structure Seen where
  /-- The number of bits of a hash. -/
  bits : Nat
  /-- The positions; the first one stands for those of which nothing is known. -/
  positions : Array Nat

namespace Seen

/-- Nothing was met yet. There are as many hashes as the fragment has bytes, rounded up to a
power of two, and between 256 and 16384. -/
def none (size : Nat) : Seen :=
  let bits := max 8 (min 14 ((size - 1).log2 + 1))
  { bits, positions := .replicate (1 <<< bits) 0 }

/-- The hash of the four bytes from a position on. -/
def slot (seen : Seen) (data : Array UInt8) (i : Nat) : Nat :=
  let byte (k : Nat) : UInt8 := data.getD (i + k) 0
  let word := Bytes.word32 (byte 0) (byte 1) (byte 2) (byte 3)
  ((word * 0x1e35a7bd) >>> UInt32.ofNat (32 - seen.bits)).toNat

/-- The position where the four bytes ahead were last met. -/
def guess (seen : Seen) (data : Array UInt8) (i : Nat) : Nat :=
  seen.positions.getD (seen.slot data i) 0

/-- Remember the four bytes from a position on. -/
def meet (seen : Seen) (data : Array UInt8) (i : Nat) : Seen :=
  { seen with positions := seen.positions.setIfInBounds (seen.slot data i) i }

end Seen

/-! ### Repeats -/

/-- The first of the next `left` positions from `i` on whose byte is not the one `offset`
places before it, or the position behind them all. -/
def repeatEnd (data : Array UInt8) (offset : Nat) : Nat → Nat → Nat
  | 0, i => i
  | left + 1, i =>
    if data.getD (i - offset) 0 = data.getD i 0 then repeatEnd data offset left (i + 1) else i

/-- The counts of the copies that make up a repeat. A copy has from four to 64 bytes, so the
last but one of a long repeat leaves at least four. -/
def copyCounts (count : Nat) : List Nat :=
  if 68 ≤ count then 64 :: copyCounts (count - 64)
  else if 64 < count then [60, count - 60]
  else [count]
termination_by count

/-- The literal between two positions, if there is anything between them. -/
def literalBetween (data : Array UInt8) (i j : Nat) : List Element :=
  if i < j then [.literal (data.extract i j).toList] else []

/-- How near the end of a fragment no repeat is looked for. -/
def margin : Nat := 15

/-- The elements of what follows the first `written` bytes, when the search has come to
position `i`. Every round goes ahead by a byte or more, so the number of bytes bounds the
rounds. -/
def elementsFrom (data : Array UInt8) : Nat → Seen → Nat → Nat → List Element
  | 0, _, written, _ => literalBetween data written data.size
  | rounds + 1, seen, written, i =>
    let next := i + max 1 ((i - written + 31) / 32)
    if data.size - margin < next then literalBetween data written data.size
    else
      let guess := seen.guess data i
      let seen := seen.meet data i
      let stop := repeatEnd data (i - guess) (data.size - i) i
      if guess < i ∧ i + 4 ≤ stop then
        literalBetween data written i ++ (copyCounts (stop - i)).map (.copy (i - guess)) ++
          elementsFrom data rounds (seen.meet data (stop - 1)) stop stop
      else elementsFrom data rounds seen written next

/-- The elements of a fragment. -/
def fragmentElements (data : Array UInt8) : List Element :=
  elementsFrom data data.size (.none data.size) 0 1

/-! ### Fragments -/

/-- The longest fragment. -/
def fragmentSize : Nat := 65536

/-- The elements of a content, fragment by fragment. No copy reaches into an earlier one. -/
def contentElements (content : Bytes) : List Element :=
  if content.isEmpty then []
  else
    fragmentElements (content.take fragmentSize).toArray ++
      contentElements (content.drop fragmentSize)
termination_by content.length
decreasing_by
  simp only [List.length_drop]
  have : content ≠ [] := by simpa using ‹¬content.isEmpty = true›
  have := List.length_pos_iff.mpr this
  simp only [fragmentSize]; omega

end StagedQuery.Block

import StagedQuery.Json.Render

/-!
# Byte strings as text

A byte string is shown as two lowercase hexadecimal digits a byte, the high one first, and
is read from such digits again.
-/

namespace StagedQuery.Bytes

/-- The digits of a byte string. -/
def toHex (bytes : Bytes) : String :=
  String.ofList (bytes.flatMap fun b =>
    [Json.hexChar (b.toNat / 16), Json.hexChar (b.toNat % 16)])

/-- The value of a lowercase hexadecimal digit. -/
def hexValue? (c : Char) : Option Nat :=
  if '0' ≤ c ∧ c ≤ '9' then some (c.toNat - '0'.toNat)
  else if 'a' ≤ c ∧ c ≤ 'f' then some (c.toNat - 'a'.toNat + 10)
  else none

/-- The byte string of digits. -/
def ofHexChars? : List Char → Option Bytes
  | [] => some []
  | [_] => none
  | a :: b :: rest => do
    let high ← hexValue? a
    let low ← hexValue? b
    let bytes ← ofHexChars? rest
    some (UInt8.ofNat (high * 16 + low) :: bytes)

/-- The byte string of a text of digits. -/
def ofHex? (text : String) : Option Bytes := ofHexChars? text.toList

end StagedQuery.Bytes

import StagedQuery.Json.Decode

/-!
# Identifiers

Queries and stage jobs are named by 128-bit identifiers. An identifier is written as 32
lowercase hexadecimal digits in groups of 8, 4, 4, 4 and 12. It may also be given without
the hyphens, in braces, or behind `urn:uuid:`, and with capital letters anywhere.
-/

namespace StagedQuery

/-- A 128-bit identifier. -/
structure Identifier where
  bits : BitVec 128
  deriving DecidableEq, Repr, Inhabited

namespace Identifier

/-- The last `n` hexadecimal digits of a number. -/
def hexDigits : Nat → Nat → List Char
  | 0, _ => []
  | n + 1, value => hexDigits n (value / 16) ++ [Json.hexChar (value % 16)]

/-- The 32 digits of an identifier. -/
def digits (id : Identifier) : List Char := hexDigits 32 id.bits.toNat

/-- The identifier in groups of digits. -/
def text (id : Identifier) : String :=
  let ds := id.digits
  let group (start count : Nat) : List Char := (ds.drop start).take count
  String.ofList (group 0 8 ++ '-' :: group 8 4 ++ '-' :: group 12 4 ++ '-' :: group 16 4
    ++ '-' :: group 20 12)

/-- The first eight digits, by which people tell identifiers apart. -/
def short (id : Identifier) : String := String.ofList (id.digits.take 8)

/-- A query in messages. -/
def queryName (id : Identifier) : String := s!"query-{id.short}"

/-- A task in messages. -/
def taskName (id : Identifier) : String := s!"task-{id.short}"

/-- The identifier of 32 hexadecimal digits. -/
def ofDigits? (ds : List Char) : Option Identifier :=
  if ds.length = 32 then do
    let values ← ds.mapM fun c => Json.hexDigit? (UInt8.ofNat (min c.toNat 255))
    some ⟨BitVec.ofNat 128 (values.foldl (fun n d => n * 16 + d) 0)⟩
  else none

/-- The identifier of digits in groups. -/
def ofGroups? (cs : List Char) : Option Identifier :=
  if cs.length = 36 ∧ [8, 13, 18, 23].all (fun i => cs[i]? == some '-') then
    ofDigits? (cs.take 8 ++ (cs.drop 9).take 4 ++ (cs.drop 14).take 4 ++ (cs.drop 19).take 4
      ++ cs.drop 24)
  else none

/-- The identifier that a text stands for. -/
def ofText? (text : String) : Option Identifier :=
  let cs := text.toList
  if cs.length = 32 then ofDigits? cs
  else if cs.length = 36 then ofGroups? cs
  else if cs.length = 38 ∧ cs.head? = some '\x7b' ∧ cs.getLast? = some '\x7d' then
    ofGroups? ((cs.drop 1).take 36)
  else if cs.length = 45 ∧ (cs.take 9).map Char.toLower = "urn:uuid:".toList then ofGroups? (cs.drop 9)
  else none

/-- An identifier as JSON. -/
def toJson (id : Identifier) : Json := .string id.text

/-- Read an identifier. -/
def decoder : Json.Decoder Identifier
  | _, .string text => ofText? text
  | _, _ => none

end Identifier

end StagedQuery

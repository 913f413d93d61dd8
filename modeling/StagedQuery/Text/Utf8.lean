import StagedQuery.Bytes

/-!
# UTF-8

Text travels as UTF-8. `Utf8.encode` writes it; `Utf8.decode` reads it back and
refuses every byte string that is not the encoding of a text, saying where the first
fault is and how many bytes it takes: a sequence that no further byte can complete is
*invalid*, one that the end of the input cuts short is *incomplete*. Overlong forms,
surrogates and code points beyond the last plane are invalid at their first byte.
-/

namespace StagedQuery.Utf8

/-- Why a byte string is not a text. -/
inductive Fault
  /-- The `length` bytes from `index` on begin no encoded character. -/
  | invalid (length index : Nat)
  /-- The input ends inside the character that starts at `index`. -/
  | incomplete (index : Nat)
  deriving DecidableEq, Repr

namespace Fault

/-- The wording of a fault. -/
def message : Fault → String
  | invalid n i => s!"invalid utf-8 sequence of {n} bytes from index {i}"
  | incomplete i => s!"incomplete utf-8 byte sequence from index {i}"

end Fault

/-- The bytes of a text. -/
def encode (s : String) : Bytes :=
  s.toList.flatMap String.utf8EncodeChar

/-- A byte that continues a character. -/
def isContinuation (b : UInt8) : Bool := 0x80 ≤ b && b ≤ 0xBF

/-- The bytes that may follow the first byte `a` of a character of three bytes. -/
def second3 (a b : UInt8) : Bool :=
  if a == 0xE0 then 0xA0 ≤ b && b ≤ 0xBF
  else if a == 0xED then 0x80 ≤ b && b ≤ 0x9F
  else isContinuation b

/-- The bytes that may follow the first byte `a` of a character of four bytes. -/
def second4 (a b : UInt8) : Bool :=
  if a == 0xF0 then 0x90 ≤ b && b ≤ 0xBF
  else if a == 0xF4 then 0x80 ≤ b && b ≤ 0x8F
  else isContinuation b

/-- The six payload bits of a continuation byte. -/
def low6 (b : UInt8) : Nat := b.toNat % 64

/-- Read the characters of a byte string whose first byte has the given index. -/
def decodeFrom (index : Nat) : Bytes → Except Fault (List Char)
  | [] => .ok []
  | a :: rest =>
    if a < 0x80 then
      (decodeFrom (index + 1) rest).map (Char.ofNat a.toNat :: ·)
    else if 0xC2 ≤ a && a ≤ 0xDF then
      match rest with
      | [] => .error (.incomplete index)
      | b :: rest =>
        if !isContinuation b then .error (.invalid 1 index)
        else
          let code := (a.toNat - 0xC0) * 64 + low6 b
          (decodeFrom (index + 2) rest).map (Char.ofNat code :: ·)
    else if 0xE0 ≤ a && a ≤ 0xEF then
      match rest with
      | [] => .error (.incomplete index)
      | b :: rest =>
        if !second3 a b then .error (.invalid 1 index)
        else match rest with
        | [] => .error (.incomplete index)
        | c :: rest =>
          if !isContinuation c then .error (.invalid 2 index)
          else
            let code := (a.toNat - 0xE0) * 4096 + low6 b * 64 + low6 c
            (decodeFrom (index + 3) rest).map (Char.ofNat code :: ·)
    else if 0xF0 ≤ a && a ≤ 0xF4 then
      match rest with
      | [] => .error (.incomplete index)
      | b :: rest =>
        if !second4 a b then .error (.invalid 1 index)
        else match rest with
        | [] => .error (.incomplete index)
        | c :: rest =>
          if !isContinuation c then .error (.invalid 2 index)
          else match rest with
          | [] => .error (.incomplete index)
          | d :: rest =>
            if !isContinuation d then .error (.invalid 3 index)
            else
              let code := (a.toNat - 0xF0) * 262144 + low6 b * 4096 + low6 c * 64 + low6 d
              (decodeFrom (index + 4) rest).map (Char.ofNat code :: ·)
    else .error (.invalid 1 index)

/-- The text of a byte string. -/
def decode (bytes : Bytes) : Except Fault String :=
  (decodeFrom 0 bytes).map String.ofList

end StagedQuery.Utf8

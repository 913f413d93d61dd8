import StagedQuery.Json.Numeral

/-!
# Reading JSON

`Json.parse` reads a byte string that holds one JSON value and blanks around it. The
reader is strict: no comment, no trailing comma, no control character inside a string,
nothing after the value. Its recursion is bounded by the length of the input.
-/

namespace StagedQuery.Json

/-- Drop the blanks at the front: space, tab, line feed, carriage return. -/
def skipBlanks : Bytes → Bytes
  | [] => []
  | b :: rest =>
    if b == 0x20 || b == 0x09 || b == 0x0A || b == 0x0D then skipBlanks rest else b :: rest

/-! ### Strings -/

/-- A part of a string: a byte that stands for itself, or an escaped code unit. -/
inductive Piece
  | byte (b : UInt8)
  | unit (n : Nat)

/-- The value of a hexadecimal digit. -/
def hexDigit? (b : UInt8) : Option Nat :=
  if 0x30 ≤ b && b ≤ 0x39 then some (b.toNat - 0x30)
  else if 0x61 ≤ b && b ≤ 0x66 then some (b.toNat - 0x61 + 10)
  else if 0x41 ≤ b && b ≤ 0x46 then some (b.toNat - 0x41 + 10)
  else none

/-- The code unit of four hexadecimal digits. -/
def unit? (a b c d : UInt8) : Option Nat := do
  let a ← hexDigit? a
  let b ← hexDigit? b
  let c ← hexDigit? c
  let d ← hexDigit? d
  pure (((a * 16 + b) * 16 + c) * 16 + d)

/-- The byte that a one-letter escape stands for. -/
def escape? (b : UInt8) : Option UInt8 :=
  if b == 0x22 || b == 0x5C || b == 0x2F then some b
  else if b == 0x62 then some 0x08
  else if b == 0x66 then some 0x0C
  else if b == 0x6E then some 0x0A
  else if b == 0x72 then some 0x0D
  else if b == 0x74 then some 0x09
  else none

/-- The parts of the string whose opening quote has been read, and what follows it. -/
def takePieces : Bytes → Option (List Piece × Bytes)
  | [] => none
  | b :: rest =>
    if b == 0x22 then some ([], rest)
    else if b == 0x5C then
      match rest with
      | [] => none
      | e :: rest =>
        if e == 0x75 then
          match rest with
          | h₁ :: h₂ :: h₃ :: h₄ :: rest => do
            let n ← unit? h₁ h₂ h₃ h₄
            let (ps, rest) ← takePieces rest
            some (.unit n :: ps, rest)
          | _ => none
        else do
          let c ← escape? e
          let (ps, rest) ← takePieces rest
          some (.byte c :: ps, rest)
    else if b < 0x20 then none
    else do
      let (ps, rest) ← takePieces rest
      some (.byte b :: ps, rest)

/-- The bytes of a string: a pair of surrogate units is one character, a surrogate unit
on its own is none. -/
def joinPieces : List Piece → Option Bytes
  | [] => some []
  | .byte b :: ps => (joinPieces ps).map (b :: ·)
  | .unit n :: ps =>
    if 0xDC00 ≤ n && n ≤ 0xDFFF then none
    else if 0xD800 ≤ n && n ≤ 0xDBFF then
      match ps with
      | .unit m :: ps =>
        if 0xDC00 ≤ m && m ≤ 0xDFFF then
          let code := 0x10000 + (n - 0xD800) * 0x400 + (m - 0xDC00)
          (joinPieces ps).map (String.utf8EncodeChar (Char.ofNat code) ++ ·)
        else none
      | _ => none
    else (joinPieces ps).map (String.utf8EncodeChar (Char.ofNat n) ++ ·)

/-- The text of a string, if it stands for one. -/
def text? (pieces : List Piece) : Option String := do
  let bytes ← joinPieces pieces
  (Utf8.decode bytes).toOption

/-! ### Values -/

/-- Drop a word from the front. -/
def dropWord? : Bytes → Bytes → Option Bytes
  | [], rest => some rest
  | w :: word, b :: rest => if b == w then dropWord? word rest else none
  | _ :: _, [] => none

/-- The object of its members, if every name is readable. -/
def objectOf (members : List (Option String × Json)) : Json :=
  match members.mapM (fun (name, value) => name.map fun n => (n, value)) with
  | some named => object named
  | none => unreadable

mutual

/-- The value that a byte string begins with. -/
def takeValue : Nat → Bytes → Option (Json × Bytes)
  | 0, _ => none
  | fuel + 1, bytes =>
    match skipBlanks bytes with
    | [] => none
    | b :: rest =>
      if b == 0x6E then (dropWord? [0x75, 0x6C, 0x6C] rest).map (null, ·)
      else if b == 0x74 then (dropWord? [0x72, 0x75, 0x65] rest).map (bool true, ·)
      else if b == 0x66 then (dropWord? [0x61, 0x6C, 0x73, 0x65] rest).map (bool false, ·)
      else if b == 0x22 then do
        let (pieces, rest) ← takePieces rest
        some (((text? pieces).map string).getD unreadable, rest)
      else if b == 0x5B then
        match skipBlanks rest with
        | [] => none
        | c :: rest' =>
          if c == 0x5D then some (array [], rest')
          else do
            let (items, rest) ← takeItems fuel rest
            some (array items, rest)
      else if b == 0x7B then
        match skipBlanks rest with
        | [] => none
        | c :: rest' =>
          if c == 0x7D then some (object [], rest')
          else do
            let (members, rest) ← takeMembers fuel rest
            some (objectOf members, rest)
      else do
        let (numeral, rest) ← takeNumeral (b :: rest)
        some (numeral.value, rest)

/-- The items of an array up to its closing bracket. -/
def takeItems : Nat → Bytes → Option (List Json × Bytes)
  | 0, _ => none
  | fuel + 1, bytes => do
    let (item, bytes) ← takeValue fuel bytes
    match skipBlanks bytes with
    | [] => none
    | b :: rest =>
      if b == 0x5D then some ([item], rest)
      else if b == 0x2C then do
        let (items, rest) ← takeItems fuel rest
        some (item :: items, rest)
      else none

/-- The members of an object up to its closing brace; a name that stands for no text is
absent. -/
def takeMembers : Nat → Bytes → Option (List (Option String × Json) × Bytes)
  | 0, _ => none
  | fuel + 1, bytes =>
    match skipBlanks bytes with
    | [] => none
    | q :: bytes =>
      if q != 0x22 then none
      else do
        let (pieces, bytes) ← takePieces bytes
        match skipBlanks bytes with
        | [] => none
        | colon :: bytes =>
          if colon != 0x3A then none
          else do
            let (value, bytes) ← takeValue fuel bytes
            match skipBlanks bytes with
            | [] => none
            | b :: rest =>
              if b == 0x7D then some ([(text? pieces, value)], rest)
              else if b == 0x2C then do
                let (members, rest) ← takeMembers fuel rest
                some ((text? pieces, value) :: members, rest)
              else none

end

/-- The JSON value that a byte string holds. -/
def parse (bytes : Bytes) : Option Json := do
  let (value, rest) ← takeValue (2 * bytes.length + 2) bytes
  match skipBlanks rest with
  | [] => some value
  | _ => none

end StagedQuery.Json

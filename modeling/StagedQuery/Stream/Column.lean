import StagedQuery.Bytes
import StagedQuery.RowGroup

/-!
# Columns as bytes

A column of a batch is two messages. The *bitmap* holds the number of rows and one bit
for each row, set when the row has a value; the bits of a byte are used from the low one
up. The *values* hold the number of values and the values themselves, those of absent
rows left out. Numbers are little-endian, a truth value is a byte, a text is its length
and its bytes.

`Column.encode` writes a column; `Column.decode` reads it again, checking every count
against the others, so that nothing is left over and nothing is missing.
-/

namespace StagedQuery.Column

/-! ### Bits -/

/-- The byte of at most eight bits, the first one lowest. -/
def packByte (bits : List Bool) : UInt8 :=
  UInt8.ofNat (bits.foldr (fun b n => (if b then 1 else 0) + 2 * n) 0)

/-- Pack bits into bytes. -/
def packBits (bits : List Bool) : Bytes :=
  if bits.isEmpty then []
  else packByte (bits.take 8) :: packBits (bits.drop 8)
termination_by bits.length
decreasing_by
  simp only [List.length_drop]
  have : bits ≠ [] := by simpa using ‹¬bits.isEmpty = true›
  have := List.length_pos_iff.mpr this
  omega

/-- The eight bits of a byte, the lowest first. -/
def unpackByte (b : UInt8) : List Bool :=
  (List.range 8).map b.toNat.testBit

/-- The bits of a byte string. -/
def unpackBits (bytes : Bytes) : List Bool := bytes.flatMap unpackByte

/-! ### Writing -/

/-- A count on the wire. -/
def encodeCount (n : Nat) : Except DataError Bytes :=
  if n < 0x80000000 then .ok (Bytes.le32 (UInt32.ofNat n)) else .error (.decode (.countTooLarge n))

/-- A value of a column of a type. -/
def encodeValue (t : DataType) (v : Value) : Except DataError Bytes :=
  match t, v with
  | .boolean, .boolean b => .ok [if b then 1 else 0]
  | .int32, .int32 n => .ok (Bytes.le32 n.toUInt32)
  | .int64, .int64 n => .ok (Bytes.le64 n.toUInt64)
  | .float32, .float32 bits => .ok (Bytes.le32 bits)
  | .float64, .float64 bits => .ok (Bytes.le64 bits)
  | .utf8, .utf8 s => do
    let bytes := Utf8.encode s
    let count ← encodeCount bytes.length
    pure (count ++ bytes)
  | .date, .date n => .ok (Bytes.le64 n.toUInt64)
  | .timestamp, .timestamp n => .ok (Bytes.le64 n.toUInt64)
  | t, v => .error (.typeMismatch t v.dataType)

/-- The values that are present, one after the other. -/
def encodeValues (t : DataType) : List Value → Except DataError Bytes
  | [] => .ok []
  | v :: vs =>
    if v.isNull then encodeValues t vs
    else do
      let bytes ← encodeValue t v
      let rest ← encodeValues t vs
      pure (bytes ++ rest)

/-- The bitmap and the values of a column. -/
def encode (values : List Value) (t : DataType) : Except DataError (Bytes × Bytes) := do
  let rows ← encodeCount values.length
  let present := values.map fun v => !v.isNull
  let data ← encodeValues t values
  let count ← encodeCount (present.count true)
  pure (rows ++ packBits present, count ++ data)

/-! ### Reading -/

/-- Take `n` bytes. -/
def take (n : Nat) (bytes : Bytes) : Except DecodeError (Bytes × Bytes) :=
  match Bytes.split? n bytes with
  | some parts => .ok parts
  | none => .error (.bytesMissing n bytes.length)

/-- Take a word. -/
def takeWord (bytes : Bytes) : Except DecodeError (UInt32 × Bytes) :=
  match Bytes.word32? bytes with
  | some parts => .ok parts
  | none => .error (.bytesMissing 4 bytes.length)

/-- Take a long word. -/
def takeLong (bytes : Bytes) : Except DecodeError (UInt64 × Bytes) :=
  match Bytes.word64? bytes with
  | some parts => .ok parts
  | none => .error (.bytesMissing 8 bytes.length)

/-- Take a count, which is not negative. -/
def takeCount (what : String) (bytes : Bytes) : Except DecodeError (Nat × Bytes) := do
  let (w, rest) ← takeWord bytes
  if w.toNat < 0x80000000 then pure (w.toNat, rest)
  else throw (.negativeCount what ((w.toNat : Int) - 0x100000000))

/-- Take a value of a type. Every byte but zero is true. -/
def takeValue (t : DataType) (bytes : Bytes) : Except DecodeError (Value × Bytes) :=
  match t with
  | .boolean =>
    match bytes with
    | b :: rest => .ok (.boolean (b != 0), rest)
    | [] => .error (.bytesMissing 1 0)
  | .int32 => do let (w, rest) ← takeWord bytes; pure (.int32 w.toInt32, rest)
  | .int64 => do let (w, rest) ← takeLong bytes; pure (.int64 w.toInt64, rest)
  | .float32 => do let (w, rest) ← takeWord bytes; pure (.float32 w, rest)
  | .float64 => do let (w, rest) ← takeLong bytes; pure (.float64 w, rest)
  | .utf8 => do
    let (n, rest) ← takeCount "string length" bytes
    let (text, rest) ← take n rest
    match Utf8.decode text with
    | .ok s => pure (.utf8 s, rest)
    | .error fault => throw (.invalidText fault)
  | .date => do let (w, rest) ← takeLong bytes; pure (.date w.toInt64, rest)
  | .timestamp => do let (w, rest) ← takeLong bytes; pure (.timestamp w.toInt64, rest)

/-- Read the rows that the bits mark, and return what is left of the bytes. -/
def takeValues (field : Field) : List Bool → Bytes → Except DecodeError (List Value × Bytes)
  | [], bytes => .ok ([], bytes)
  | false :: bits, bytes =>
    if field.nullable then do
      let (vs, rest) ← takeValues field bits bytes
      pure (.null :: vs, rest)
    else throw (.absentValue field.name)
  | true :: bits, bytes => do
    let (v, rest) ← takeValue field.dataType bytes
    let (vs, rest) ← takeValues field bits rest
    pure (v :: vs, rest)

/-- The number of bytes that hold one bit for each row. -/
def bitmapSize (rows : Nat) : Nat := (rows + 7) / 8

/-- The column of a bitmap and values. -/
def decode (field : Field) (rows : Nat) (bitmap values : Bytes) :
    Except DecodeError (List Value) := do
  let (flags, rest) ← takeCount "bitmap length" bitmap
  if flags ≠ rows then throw (.flagCount field.name flags rows)
  let (packed, _) ← take (bitmapSize rows) rest
  let (declared, data) ← takeCount "value count" values
  let bits := (unpackBits packed).take rows
  let (column, left) ← takeValues field bits data
  let marked := bits.count true
  if marked ≠ declared ∨ left ≠ [] then throw (.valueCount field.name declared marked)
  pure column

end StagedQuery.Column

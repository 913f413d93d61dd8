/-!
# Values

A column holds values of one data type, or the absent value. Floating-point values
are kept as bit patterns, so that two of them are the same value exactly when their
bits are the same, and so that they are ordered by the total order of the
floating-point standard: negative NaNs first, then the numbers, then the positive
NaNs, with `-0` before `0`.

`Value.compare` orders values of one type by content and values of different types by
the rank of the type. The absent value comes first.
-/

namespace StagedQuery

/-- The data types that a column may have. -/
inductive DataType
  | boolean | int32 | int64 | float32 | float64 | utf8 | date | timestamp
  deriving DecidableEq, Repr, Inhabited

namespace DataType

/-- Every data type, in declaration order. -/
def all : List DataType :=
  [boolean, int32, int64, float32, float64, utf8, date, timestamp]

/-- How a data type is shown to people. -/
def display : DataType → String
  | boolean => "BOOLEAN"
  | int32 => "INT32"
  | int64 => "INT64"
  | float32 => "FLOAT32"
  | float64 => "FLOAT64"
  | utf8 => "STRING"
  | date => "DATE"
  | timestamp => "TIMESTAMP"

/-- The name of a data type in messages. -/
def name : DataType → String
  | boolean => "Boolean"
  | int32 => "Int32"
  | int64 => "Int64"
  | float32 => "Float32"
  | float64 => "Float64"
  | utf8 => "Utf8"
  | date => "Date"
  | timestamp => "Timestamp"

/-- The bytes one value takes, where all values of the type take the same. -/
def width : DataType → Option Nat
  | boolean => some 1
  | int32 | float32 => some 4
  | int64 | float64 | date | timestamp => some 8
  | utf8 => none

end DataType

/-- One entry of a column. -/
inductive Value
  /-- The absent value, of no type and of every type. -/
  | null
  | boolean (b : Bool)
  | int32 (n : Int32)
  | int64 (n : Int64)
  /-- A single-precision number, as its bits. -/
  | float32 (bits : UInt32)
  /-- A double-precision number, as its bits. -/
  | float64 (bits : UInt64)
  | utf8 (text : String)
  /-- A day, in seconds since the epoch. -/
  | date (seconds : Int64)
  /-- A point in time, in seconds since the epoch. -/
  | timestamp (seconds : Int64)
  deriving DecidableEq, Repr, Inhabited

namespace Value

/-- Whether the value is absent. -/
def isNull : Value → Bool
  | null => true
  | _ => false

/-- The type of a value; the absent value has none. -/
def dataType : Value → Option DataType
  | null => none
  | boolean _ => some .boolean
  | int32 _ => some .int32
  | int64 _ => some .int64
  | float32 _ => some .float32
  | float64 _ => some .float64
  | utf8 _ => some .utf8
  | date _ => some .date
  | timestamp _ => some .timestamp

/-- The type of a value as messages show it. -/
def typeName (v : Value) : String :=
  (v.dataType.map DataType.display).getD "NULL"

/-- A value may stand in a column of its type; the absent value may stand in any. -/
def conformsTo (v : Value) (t : DataType) : Bool :=
  match v.dataType with
  | none => true
  | some s => s == t

/-- The place of a value's type in the order of values of different types. -/
def rank : Value → Nat
  | null => 0
  | boolean _ => 1
  | int32 _ => 2
  | int64 _ => 3
  | float32 _ => 4
  | float64 _ => 5
  | utf8 _ => 6
  | date _ => 7
  | timestamp _ => 8

/-- The place of a bit pattern of `w` bits in the total order of floating-point data:
patterns with the sign bit descend from `-1`, the others ascend from `0`. -/
def totalOrderKey (w bits : Nat) : Int :=
  let half := Nat.pow 2 (w - 1)
  if bits < half then (bits : Int) else (half : Int) - 1 - (bits : Int)

/-- The total order of values. -/
def compare : Value → Value → Ordering
  | boolean a, boolean b => Ord.compare a b
  | int32 a, int32 b => Ord.compare a.toInt b.toInt
  | int64 a, int64 b => Ord.compare a.toInt b.toInt
  | float32 a, float32 b => Ord.compare (totalOrderKey 32 a.toNat) (totalOrderKey 32 b.toNat)
  | float64 a, float64 b => Ord.compare (totalOrderKey 64 a.toNat) (totalOrderKey 64 b.toNat)
  | utf8 a, utf8 b => Ord.compare a b
  | date a, date b => Ord.compare a.toInt b.toInt
  | timestamp a, timestamp b => Ord.compare a.toInt b.toInt
  | a, b => Ord.compare a.rank b.rank

end Value

end StagedQuery

import StagedQuery.Text.Utf8

/-!
# JSON values

Messages, plans and configurations are JSON. A JSON value keeps the members of an
object in the order of the text, repeated names included: it is for a decoder to say
whether a repeated name is a fault. Whole numbers of 64 bits are kept apart from
floating-point numbers.

A number beyond every range, and a string whose escapes name no character, are
well-formed but stand for nothing: they are `unreadable`. Whoever skips such a value is
not hurt by it; whoever reads it is.
-/

namespace StagedQuery

/-- A JSON value. -/
inductive Json
  | null
  | bool (b : Bool)
  /-- A whole number of at most 64 bits, signed or not. -/
  | integer (n : Int)
  /-- A double-precision number, as its bits. -/
  | float (bits : UInt64)
  /-- A single-precision number, as its bits. Such numbers are written, with fewer digits
  than double precision would need; a text is always read as double precision. -/
  | single (bits : UInt32)
  | string (text : String)
  | array (items : List Json)
  | object (members : List (String × Json))
  /-- A well-formed scalar without a value. -/
  | unreadable
  deriving Inhabited, Repr

end StagedQuery

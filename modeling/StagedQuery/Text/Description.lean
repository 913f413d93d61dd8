import StagedQuery.Json.Render
import StagedQuery.Text.Shapeless

/-!
# Descriptions

Messages about a plan describe its nodes: a record by its name and its fields, as in
`Limit { count: 5 }`, a variant by its name and its content, as in `Int32(1)`, a list in
square brackets. Texts stand in quotes, with everything escaped that could not be told
apart on a page.
-/

namespace StagedQuery.Text

/-- The code point of a character in hexadecimal, without leading zeros. -/
def codePoint (c : Char) : List Char :=
  (Nat.toDigits 16 c.toNat)

/-- A character inside quotes. -/
def describeChar (c : Char) : List Char :=
  if c = '"' then ['\\', '"']
  else if c = '\\' then ['\\', '\\']
  else if c = '\n' then ['\\', 'n']
  else if c = '\r' then ['\\', 'r']
  else if c = '\t' then ['\\', 't']
  else if c.toNat = 0 then ['\\', '0']
  else if isShapeless c then ['\\', 'u', '\x7b'] ++ codePoint c ++ ['\x7d']
  else [c]

/-- A text in quotes. -/
def describe (text : String) : String :=
  String.ofList ('"' :: text.toList.flatMap describeChar ++ ['"'])

/-- A list of descriptions. -/
def describeList (items : List String) : String :=
  "[" ++ String.intercalate ", " items ++ "]"

/-- A record: its name and its fields. -/
def describeRecord (name : String) (fields : List (String × String)) : String :=
  name ++ " \x7b " ++ String.intercalate ", " (fields.map fun (n, d) => n ++ ": " ++ d) ++ " \x7d"

/-- A variant with content. -/
def describeVariant (name content : String) : String := name ++ "(" ++ content ++ ")"

/-- Something that may be absent. -/
def describeOption : Option String → String
  | some d => describeVariant "Some" d
  | none => "None"

/-- A truth value. -/
def describeBool (b : Bool) : String := if b then "true" else "false"

end StagedQuery.Text

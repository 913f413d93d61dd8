import StagedQuery.Json.Basic
import StagedQuery.Number.Notation

/-!
# Writing JSON

`Json.render` writes a value on one line without blanks; `Json.renderPretty` puts every
item and member on a line of its own, indented by two blanks a level. Inside strings
only the quote, the backslash and the control characters are escaped. Floating-point
numbers are written with their shortest digits, and what is no number as `null`.
-/

namespace StagedQuery.Json

/-- The text of one hexadecimal digit. -/
def hexChar (n : Nat) : Char :=
  if n < 10 then Char.ofNat (n + 0x30) else Char.ofNat (n - 10 + 0x61)

/-- A character inside a string. -/
def escapeChar (c : Char) : List Char :=
  if c = '"' then ['\\', '"']
  else if c = '\\' then ['\\', '\\']
  else if c.toNat = 0x08 then ['\\', 'b']
  else if c.toNat = 0x0C then ['\\', 'f']
  else if c.toNat = 0x0A then ['\\', 'n']
  else if c.toNat = 0x0D then ['\\', 'r']
  else if c.toNat = 0x09 then ['\\', 't']
  else if c.toNat < 0x20 then ['\\', 'u', '0', '0', hexChar (c.toNat / 16), hexChar (c.toNat % 16)]
  else [c]

/-- A string with its quotes. -/
def quote (text : String) : List Char :=
  '"' :: text.toList.flatMap escapeChar ++ ['"']

/-- Put a separator between texts. -/
def separate (separator : List Char) : List (List Char) → List Char
  | [] => []
  | [x] => x
  | x :: xs => x ++ separator ++ separate separator xs

mutual

/-- The characters of a value, on one line. -/
def chars : Json → List Char
  | null => "null".toList
  | bool b => (if b then "true" else "false").toList
  | integer n => (toString n).toList
  | float bits => (FloatNotation.jsonDouble.double bits).toList
  | single bits => (FloatNotation.jsonSingle.single bits).toList
  | string text => quote text
  | array items => '[' :: separate [','] (itemChars items) ++ [']']
  | object members => '{' :: separate [','] (memberChars members) ++ ['}']
  | unreadable => "null".toList

/-- The characters of each item. -/
def itemChars : List Json → List (List Char)
  | [] => []
  | item :: items => chars item :: itemChars items

/-- The characters of each member. -/
def memberChars : List (String × Json) → List (List Char)
  | [] => []
  | (name, value) :: members => (quote name ++ ':' :: chars value) :: memberChars members

end

/-- The text of a value, on one line. -/
def render (json : Json) : String := String.ofList json.chars

/-- The text of a value as bytes. -/
def bytes (json : Json) : Bytes := Utf8.encode json.render

/-! ### Indented text -/

/-- A line break and the indentation of a level. -/
def newline (level : Nat) : List Char := '\n' :: List.replicate (2 * level) ' '

/-- Texts inside brackets, each on a line of its own. -/
def block (opening closing : Char) (level : Nat) (texts : List (List Char)) : List Char :=
  if texts.isEmpty then [opening, closing]
  else
    opening :: newline (level + 1) ++ separate (',' :: newline (level + 1)) texts
      ++ newline level ++ [closing]

mutual

/-- The characters of a value whose first line is indented by a level. -/
def prettyChars (level : Nat) : Json → List Char
  | array items => block '[' ']' level (prettyItems (level + 1) items)
  | object members => block '{' '}' level (prettyMembers (level + 1) members)
  | json => json.chars

/-- The characters of each item. -/
def prettyItems (level : Nat) : List Json → List (List Char)
  | [] => []
  | item :: items => prettyChars level item :: prettyItems level items

/-- The characters of each member. -/
def prettyMembers (level : Nat) : List (String × Json) → List (List Char)
  | [] => []
  | (name, value) :: members =>
    (quote name ++ [':', ' '] ++ prettyChars level value) :: prettyMembers level members

end

/-- The text of a value over several lines. -/
def renderPretty (json : Json) : String := String.ofList (json.prettyChars 0)

end StagedQuery.Json

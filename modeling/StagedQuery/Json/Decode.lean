import StagedQuery.Json.Parse
import StagedQuery.Json.Render
import StagedQuery.Number.Narrow

/-!
# Decoding JSON

A decoder turns a JSON value into a value of some type, or refuses it. The conventions
for all types are these.

* A record is an object; members with unknown names are skipped, a repeated known name
  is refused. It may also be the array of its fields in declaration order.
* A variant without content is its name, or an object whose one member has that name
  and the value `null`. A variant with content is an object with one member.
* A tagged record is an object one of whose members says which record it is; it may also
  be an array that starts with the tag.
* Values are nested at most `maxDepth - 1` deep; what is skipped does not count.

A tagged record is looked at as a whole before its tag is known, so nothing in it may be
unreadable or nested too deeply, not even what is skipped later.
-/

namespace StagedQuery.Json

/-- How deep a decoder may still go, and whether it is inside a tagged record. -/
structure Scope where
  depth : Nat
  tagged : Bool := false

/-- Read a value of a type. -/
abbrev Decoder (α : Type) := Scope → Json → Option α

/-- The nesting at which decoding gives up. -/
def maxDepth : Nat := 128

/-- The scope of a whole text. -/
def Scope.top : Scope := ⟨maxDepth, false⟩

/-- The scope one level down. -/
def Scope.enter? (scope : Scope) : Option Scope :=
  if scope.depth ≤ 1 then none else some { scope with depth := scope.depth - 1 }

/-! ### Whole values -/

mutual

/-- How many levels of arrays and objects a value has. -/
def levels : Json → Nat
  | array items => itemLevels items + 1
  | object members => memberLevels members + 1
  | _ => 0

/-- The most levels that an item has. -/
def itemLevels : List Json → Nat
  | [] => 0
  | item :: items => max (levels item) (itemLevels items)

/-- The most levels that a member has. -/
def memberLevels : List (String × Json) → Nat
  | [] => 0
  | (_, value) :: members => max (levels value) (memberLevels members)

end

mutual

/-- Whether nothing in a value is unreadable. -/
def isReadable : Json → Bool
  | array items => itemsReadable items
  | object members => membersReadable members
  | unreadable => false
  | _ => true

/-- Whether every item is readable. -/
def itemsReadable : List Json → Bool
  | [] => true
  | item :: items => isReadable item && itemsReadable items

/-- Whether every member is readable. -/
def membersReadable : List (String × Json) → Bool
  | [] => true
  | (_, value) :: members => isReadable value && membersReadable members

end

/-- A value that is read as a whole. -/
def fits (scope : Scope) (json : Json) : Bool :=
  json.levels < scope.depth && json.isReadable

/-- Put a member into its place by name; a later member replaces an earlier one. -/
def insertMember (name : String) (value : Json) :
    List (String × Json) → List (String × Json)
  | [] => [(name, value)]
  | (n, v) :: members =>
    match Ord.compare name n with
    | .lt => (name, value) :: (n, v) :: members
    | .eq => (name, value) :: members
    | .gt => (n, v) :: insertMember name value members

mutual

/-- The value with the members of every object in the order of their names, the last of
equal names kept. -/
def sorted : Json → Json
  | array items => array (sortedItems items)
  | object members => object (sortedMembers [] members)
  | json => json

/-- Sort inside each item. -/
def sortedItems : List Json → List Json
  | [] => []
  | item :: items => sorted item :: sortedItems items

/-- Sort inside each member, and the members. -/
def sortedMembers (done : List (String × Json)) : List (String × Json) → List (String × Json)
  | [] => done
  | (name, value) :: members => sortedMembers (insertMember name (sorted value) done) members

end

/-- Read any value. -/
def any : Decoder Json := fun scope json =>
  if json.fits scope then some json.sorted else none

/-! ### Scalars -/

/-- Read a truth value. -/
def boolean : Decoder Bool
  | _, bool b => some b
  | _, _ => none

/-- Read a text. -/
def text : Decoder String
  | _, string s => some s
  | _, _ => none

/-- Read a whole number within bounds. -/
def bounded (low high : Int) : Decoder Int
  | _, integer n => if low ≤ n ∧ n ≤ high then some n else none
  | _, _ => none

/-- Read a signed whole number of 32 bits. -/
def int32 : Decoder Int32 := fun scope json =>
  (bounded (-0x80000000) 0x7fffffff scope json).map Int32.ofInt

/-- Read a signed whole number of 64 bits. -/
def int64 : Decoder Int64 := fun scope json =>
  (bounded (-0x8000000000000000) 0x7fffffffffffffff scope json).map Int64.ofInt

/-- Read an unsigned whole number of 64 bits. -/
def natural : Decoder Nat := fun scope json =>
  (bounded 0 0xffffffffffffffff scope json).map Int.toNat

/-- Read an unsigned whole number of 16 bits. -/
def uint16 : Decoder UInt16 := fun scope json =>
  (bounded 0 0xffff scope json).map fun n => UInt16.ofNat n.toNat

/-- Read a number in double precision; whole numbers are rounded. -/
def double : Decoder UInt64
  | _, float bits => some bits
  | _, single bits => some (Float32.ofBits bits).toFloat.toBits
  | _, integer n =>
    let magnitude := n.natAbs.toUInt64.toFloat
    some (if n < 0 then -magnitude else magnitude).toBits
  | _, _ => none

/-- Read a number in single precision, rounding it; what is too large is infinite. -/
def singlePrecision : Decoder UInt32
  | _, float bits => some (Binary.narrow bits)
  | _, single bits => some bits
  | _, integer n =>
    let magnitude := n.natAbs.toUInt64.toFloat32
    some (if n < 0 then -magnitude else magnitude).toBits
  | _, _ => none

/-! ### Composite values -/

/-- Read an array of values. -/
def list {α : Type} (item : Decoder α) : Decoder (List α)
  | scope, array items => do
    let scope ← scope.enter?
    items.mapM (item scope)
  | _, _ => none

/-- Read a value that may be absent. -/
def optional {α : Type} (item : Decoder α) : Decoder (Option α)
  | _, null => some none
  | scope, json => (item scope json).map some

/-- The fields of a record: what was given for each name, in the order of the names. -/
def fields? (names : List String) : Json → Option (List (Option Json))
  | object members =>
    names.mapM fun name =>
      match members.filter (·.1 == name) with
      | [] => some none
      | [(_, value)] => some (some value)
      | _ => none
  | array items =>
    if items.length ≤ names.length then
      some (items.map some ++ List.replicate (names.length - items.length) none)
    else none
  | _ => none

/-- The field at a place, which must be given. -/
def field {α : Type} (item : Decoder α) (scope : Scope) (fields : List (Option Json)) (i : Nat) :
    Option α := do
  let given ← fields[i]?
  let json ← given
  item scope json

/-- The field at a place, which has a default. -/
def fieldOr {α : Type} (default : α) (item : Decoder α) (scope : Scope)
    (fields : List (Option Json)) (i : Nat) : Option α :=
  match fields[i]? with
  | some (some json) => item scope json
  | _ => some default

/-- A variant: its name, and its content with the scope to read it in. -/
def variant? (scope : Scope) : Json → Option (String × Option (Scope × Json))
  | string name => some (name, none)
  | object [(name, content)] => do
    let scope ← scope.enter?
    some (name, some (scope, content))
  | _ => none

/-- Whether the content of a variant is that of a variant without content. Inside a
tagged record the empty object counts as no content. -/
def isUnit : Option (Scope × Json) → Bool
  | none => true
  | some (_, null) => true
  | some (scope, object []) => scope.tagged
  | _ => false

/-- Read one of several names. -/
def oneOf {α : Type} (names : List (String × α)) : Decoder α := fun scope json => do
  let (name, content) ← variant? scope json
  if isUnit content then names.lookup name else none

/-- A tagged record: its tag, and the rest of it with the scope to read it in. -/
def tagged? (tag : String) (scope : Scope) (json : Json) : Option (String × Scope × Json) :=
  if json.fits scope then
    let inner : Scope := ⟨scope.depth, true⟩
    match json with
    | object members =>
      match members.filter (·.1 == tag) with
      | [(_, string name)] => some (name, inner, object (members.filter (·.1 != tag)))
      | _ => none
    | array (string name :: items) => some (name, inner, array items)
    | _ => none
  else none

/-- Whether the rest of a tagged record may be that of a record without fields. -/
def isBlank : Json → Bool
  | object _ => true
  | array [] => true
  | _ => false

/-! ### Texts -/

/-- Read a text that holds one value of a type. -/
def decodeBytes {α : Type} (item : Decoder α) (bytes : Bytes) : Option α := do
  let json ← parse bytes
  item .top json

/-- Read a text that holds one value of a type. -/
def decodeText {α : Type} (item : Decoder α) (text : String) : Option α :=
  decodeBytes item (Utf8.encode text)

end StagedQuery.Json

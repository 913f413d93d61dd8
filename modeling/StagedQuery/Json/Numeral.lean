import StagedQuery.Json.Basic

/-!
# JSON numerals

A numeral is first split into its parts, then given a value. Whole numbers that fit
into 64 bits are exact. Every other numeral is a floating-point number: of its digits as
many as fit into 64 bits are taken, and the result is scaled by a power of ten in one
multiplication or division. A numeral too large for double precision has no value.
-/

namespace StagedQuery.Json

/-- The parts of a numeral. -/
structure Numeral where
  negative : Bool
  /-- The digits before the point. -/
  whole : List Nat
  /-- The digits after the point, if there is one. -/
  fraction : Option (List Nat)
  /-- The exponent, if there is one: whether it is negative, and its digits. -/
  exponent : Option (Bool × List Nat)

/-- The value of a digit. -/
def digit? (b : UInt8) : Option Nat :=
  if 0x30 ≤ b && b ≤ 0x39 then some (b.toNat - 0x30) else none

/-- The digits that a byte string begins with, and what follows them. -/
def takeDigits : Bytes → List Nat × Bytes
  | [] => ([], [])
  | b :: rest =>
    match digit? b with
    | some d => let (ds, rest) := takeDigits rest; (d :: ds, rest)
    | none => ([], b :: rest)

/-- The exponent part that a byte string begins with: `e`, a sign, digits. -/
def takeExponent : Bytes → Option (Option (Bool × List Nat) × Bytes)
  | [] => some (none, [])
  | b :: rest =>
    if b == 0x65 || b == 0x45 then
      let (negative, rest) : Bool × Bytes := match rest with
        | s :: rest' =>
          if s == 0x2D then (true, rest') else if s == 0x2B then (false, rest') else (false, rest)
        | [] => (false, [])
      match takeDigits rest with
      | ([], _) => none
      | (ds, rest) => some (some (negative, ds), rest)
    else some (none, b :: rest)

/-- The fraction part that a byte string begins with: a point and digits. -/
def takeFraction : Bytes → Option (Option (List Nat) × Bytes)
  | [] => some (none, [])
  | b :: rest =>
    if b == 0x2E then
      match takeDigits rest with
      | ([], _) => none
      | (ds, rest) => some (some ds, rest)
    else some (none, b :: rest)

/-- The numeral that a byte string begins with. A zero at the front stands alone. -/
def takeNumeral (bytes : Bytes) : Option (Numeral × Bytes) := do
  let (negative, bytes) : Bool × Bytes := match bytes with
    | b :: rest => if b == 0x2D then (true, rest) else (false, b :: rest)
    | [] => (false, [])
  let (whole, bytes) := takeDigits bytes
  match whole with
  | [] => none
  | 0 :: _ :: _ => none
  | _ =>
    let (fraction, bytes) ← takeFraction bytes
    let (exponent, bytes) ← takeExponent bytes
    some ({ negative, whole, fraction, exponent }, bytes)

/-! ### The value of a numeral -/

/-- The largest unsigned whole number. -/
def maxUnsigned : Nat := 0xffffffffffffffff

/-- Take the digits before the point, as long as they fit; the others are counted. -/
def collectWhole : List Nat → Nat → Nat × Nat
  | [], n => (n, 0)
  | d :: ds, n =>
    if n * 10 + d ≤ maxUnsigned then collectWhole ds (n * 10 + d) else (n, ds.length + 1)

/-- Take the digits after the point, as long as they fit, and count those taken. -/
def collectFraction : List Nat → Nat → Nat × Nat
  | [], n => (n, 0)
  | d :: ds, n =>
    if n * 10 + d ≤ maxUnsigned then
      let (m, k) := collectFraction ds (n * 10 + d); (m, k + 1)
    else (n, 0)

/-- A power of ten in double precision. -/
def powerOfTen (k : Nat) : Float := Float.ofScientific 1 false k

/-- Scale a number by a power of ten. Powers beyond the range are taken in steps. -/
def scaleTen : Nat → Float → Int → Option Float
  | 0, _, _ => none
  | fuel + 1, f, e =>
    if e.natAbs ≤ 308 then
      if 0 ≤ e then
        let scaled := f * powerOfTen e.natAbs
        if scaled.isInf then none else some scaled
      else some (f / powerOfTen e.natAbs)
    else if f == 0 then some f
    else if 0 ≤ e then none
    else scaleTen fuel (f / powerOfTen 308) (e + 308)

/-- The whole number of a list of digits. -/
def ofDigits (ds : List Nat) : Nat := ds.foldl (fun n d => n * 10 + d) 0

/-- The value of a numeral. -/
def Numeral.value (numeral : Numeral) : Json :=
  let (whole, skipped) := collectWhole numeral.whole 0
  let signed (f : Float) : Json := float (if numeral.negative then -f else f).toBits
  match numeral.fraction, numeral.exponent with
  | none, none =>
    if skipped = 0 then
      if !numeral.negative then integer whole
      else if 0 < whole ∧ whole ≤ 0x8000000000000000 then integer (-(whole : Int))
      else signed whole.toUInt64.toFloat
    else match scaleTen 4 whole.toUInt64.toFloat skipped with
      | some f => signed f
      | none => unreadable
  | fraction, exponent =>
    let (significand, places) := collectFraction (fraction.getD []) whole
    let shift : Int := match exponent with
      | none => 0
      | some (negative, ds) => if negative then -(ofDigits ds : Int) else ofDigits ds
    match scaleTen 4 significand.toUInt64.toFloat ((skipped : Int) - places + shift) with
    | some f => signed f
    | none => unreadable

end StagedQuery.Json

/-!
# The shortest decimal of a binary number

A positive binary number `m · 2^q` is the nearest one of its format to every real
between the midpoints to its two neighbours. `Binary.shortest` gives the fewest decimal
digits that name a real in that interval, and of those the ones nearest to the number
itself, so that reading the digits gives the number back. When two are equally near a
notation says which one it takes.

The search is exact: for one digit, two digits and so on, it looks at the two points of
that decimal grid next to the number, and stops at the first grid that has a point in
the interval.
-/

namespace StagedQuery

/-- A binary floating-point format. -/
structure BinaryFormat where
  /-- Stored bits of the significand. -/
  fractionBits : Nat
  /-- Bits of the exponent. -/
  exponentBits : Nat

namespace BinaryFormat

/-- Single precision. -/
def single : BinaryFormat := ⟨23, 8⟩

/-- Double precision. -/
def double : BinaryFormat := ⟨52, 11⟩

end BinaryFormat

/-- What a bit pattern of a format stands for. -/
inductive Binary
  | nan
  | infinite (negative : Bool)
  | zero (negative : Bool)
  /-- The number `± m · 2^q`; `wide` when the neighbour below is half as far away as the
  one above. -/
  | finite (negative : Bool) (m : Nat) (q : Int) (wide : Bool)
  deriving Repr

/-- A decimal number `digits · 10^exponent`. -/
structure Digits where
  digits : Nat
  exponent : Int
  deriving DecidableEq, Repr

/-- Which of two equally near decimals is taken. -/
inductive Tie
  /-- The one whose last digit is even. -/
  | toEven
  /-- The larger one. -/
  | up
  deriving DecidableEq, Repr

namespace Binary

/-- Take a bit pattern apart. -/
def ofBits (f : BinaryFormat) (bits : Nat) : Binary :=
  let fraction := bits % Nat.pow 2 f.fractionBits
  let exponent := bits / Nat.pow 2 f.fractionBits % Nat.pow 2 f.exponentBits
  let negative := bits / Nat.pow 2 (f.fractionBits + f.exponentBits) % 2 == 1
  let bias : Int := (Nat.pow 2 (f.exponentBits - 1) : Nat) - 1 + f.fractionBits
  if exponent == Nat.pow 2 f.exponentBits - 1 then
    if fraction == 0 then infinite negative else nan
  else if exponent == 0 then
    if fraction == 0 then zero negative else finite negative fraction (1 - bias) false
  else
    finite negative (Nat.pow 2 f.fractionBits + fraction) (exponent - bias)
      (fraction == 0 && 1 < exponent)

/-- The number of decimal digits of a natural number; zero has one. -/
def digitCount (n : Nat) : Nat := (Nat.toDigits 10 n).length

/-- The power of ten of the leading digit of `num / den`, found by trying ever smaller
powers when the quotient is below one. -/
def leading (num den : Nat) : Int :=
  if den ≤ num then (digitCount (num / den) - 1 : Nat)
  else
    match (List.range 400).find? (fun k => den ≤ num * Nat.pow 10 (k + 1)) with
    | some k => -(k + 1 : Int)
    | none => -401

/-- Drop the zeros at the end of the digits. -/
def trim : Nat → Digits → Digits
  | 0, d => d
  | fuel + 1, d =>
    if d.digits ≠ 0 ∧ d.digits % 10 = 0 then trim fuel ⟨d.digits / 10, d.exponent + 1⟩ else d

/-- A decimal as a quotient whose denominator divides the given one. -/
def gridPoint (k : Nat) (e : Int) : Nat × Nat :=
  if 0 ≤ e then (k * Nat.pow 10 e.toNat, 1) else (k, Nat.pow 10 (-e).toNat)

/-- The shortest decimal of `m · 2^q`. The interval is measured in quarters of the last
place of `m`; its ends belong to it when `m` is even. -/
def shortest (tie : Tie) (m : Nat) (q : Int) (wide : Bool) : Digits :=
  -- the unit 2^(q-2), as a quotient
  let unit : Nat × Nat :=
    if 2 ≤ q then (Nat.pow 2 (q - 2).toNat, 1) else (1, Nat.pow 2 (2 - q).toNat)
  let low := if wide then 4 * m - 1 else 4 * m - 2
  let high := 4 * m + 2
  let closed := m % 2 == 0
  -- compare `k · 10^e` with `n` units
  let inside (k : Nat) (e : Int) : Bool :=
    let (num, den) := gridPoint k e
    let point := num * unit.2
    let scale := unit.1 * den
    if closed then low * scale ≤ point && point ≤ high * scale
    else low * scale < point && point < high * scale
  let distance (k : Nat) (e : Int) : Nat :=
    let (num, den) := gridPoint k e
    let point := num * unit.2
    let target := 4 * m * unit.1 * den
    if point ≤ target then target - point else point - target
  let lead := leading (4 * m * unit.1) unit.2
  let candidate (n : Nat) : Option Digits :=
    let e := lead - n
    let below :=
      if 0 ≤ e then 4 * m * unit.1 / (unit.2 * Nat.pow 10 e.toNat)
      else 4 * m * unit.1 * Nat.pow 10 (-e).toNat / unit.2
    match inside below e, inside (below + 1) e with
    | true, true =>
      some ⟨if distance below e < distance (below + 1) e then below
        else if distance below e = distance (below + 1) e ∧ tie = .toEven ∧ below % 2 = 0 then
          below
        else below + 1, e⟩
    | true, false => some ⟨below, e⟩
    | false, true => some ⟨below + 1, e⟩
    | false, false => none
  let found := ((List.range 17).findSome? candidate).getD ⟨m, 0⟩
  trim 400 found

end Binary

end StagedQuery

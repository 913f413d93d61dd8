/-!
# From double to single precision

A double-precision number becomes the nearest one of single precision; of two that are equally
near it becomes the one whose last bit is zero. What is too large becomes infinite, and what is
no number stays none.
-/

namespace StagedQuery.Binary

/-- The whole number nearest to a quotient, the even one of two. -/
def nearest (num den : Nat) : Nat :=
  let below := num / den
  let left := num % den
  if 2 * left < den ∨ 2 * left = den ∧ below % 2 = 0 then below else below + 1

/-- Round a bit pattern of double precision without its sign. The significand loses 29 bits, or
more where the exponents of single precision end; what is carried out of it goes into the
exponent, which stands above it. -/
def narrowMagnitude (bits : Nat) : Nat :=
  let exponent := bits / 0x10000000000000
  let fraction := bits % 0x10000000000000
  if exponent = 0x7ff ∧ fraction ≠ 0 then 0x7fc00000 ||| fraction / 0x20000000
  else
    let significand := if exponent = 0 then fraction else 0x10000000000000 + fraction
    let dropped := Nat.pow 2 (max 29 (926 - exponent))
    min 0x7f800000 ((exponent - 897) * 0x800000 + nearest significand dropped)

/-- Round a double-precision number to single precision. -/
def narrow (bits : UInt64) : UInt32 :=
  let sign := bits.toNat / 0x8000000000000000
  UInt32.ofNat (sign * 0x80000000 + narrowMagnitude (bits.toNat % 0x8000000000000000))

/-- Beyond the range of single precision there is only infinity: `1e39` in double precision. -/
example : narrow 0x48078287f49c4a1d = 0x7f800000 := by decide

end StagedQuery.Binary

import StagedQuery.Number.Shortest

/-!
# Notations of floating-point numbers

A floating-point number is always written with its shortest digits. The notations
differ in where they change from positional to exponent form, in whether a whole number
keeps a `.0`, in which of two equally near decimals they take, and in how they write what
is not a number. Each notation is one record.
-/

namespace StagedQuery

/-- How a floating-point number is laid out. -/
structure FloatNotation where
  /-- Positional form is used when the power of ten of the leading digit lies between
  these, the ends included; `none` means always. -/
  positional : Option (Int × Int)
  /-- Whether a whole number in positional form ends in `.0`. -/
  pointZero : Bool
  /-- Whether a positive exponent has a sign. -/
  plusSign : Bool
  /-- Which of two equally near decimals is taken. -/
  tie : Tie
  /-- The texts of not-a-number, infinity and negative infinity. -/
  nan : String
  infinity : String
  negativeInfinity : String

namespace FloatNotation

/-- The digits with a point put in, in positional form. -/
def layPositional (pointZero : Bool) (d : Digits) : String :=
  let text := toString d.digits
  let zeros (n : Nat) : String := String.ofList (List.replicate n '0')
  if 0 ≤ d.exponent then
    text ++ zeros d.exponent.toNat ++ (if pointZero then ".0" else "")
  else
    let places := (-d.exponent).toNat
    let count := text.length
    if places < count then
      String.ofList (text.toList.take (count - places)) ++ "."
        ++ String.ofList (text.toList.drop (count - places))
    else "0." ++ zeros (places - count) ++ text

/-- The digits in exponent form: one digit, the others after a point, the exponent. -/
def layExponent (plusSign : Bool) (d : Digits) : String :=
  let text := (toString d.digits).toList
  let exponent : Int := d.exponent + text.length - 1
  let mantissa := match text with
    | [] => ""
    | [c] => String.ofList [c]
    | c :: rest => String.ofList (c :: '.' :: rest)
  let sign := if 0 ≤ exponent then (if plusSign then "+" else "") else "-"
  mantissa ++ "e" ++ sign ++ toString exponent.natAbs

/-- Write a number. -/
def write (style : FloatNotation) : Binary → String
  | .nan => style.nan
  | .infinite negative => if negative then style.negativeInfinity else style.infinity
  | .zero negative => (if negative then "-0" else "0") ++ (if style.pointZero then ".0" else "")
  | .finite negative m q wide =>
    let d := Binary.shortest style.tie m q wide
    let lead : Int := d.exponent + (toString d.digits).length - 1
    let positional := match style.positional with
      | none => true
      | some (low, high) => low ≤ lead && lead ≤ high
    (if negative then "-" else "") ++
      if positional then layPositional style.pointZero d
      else layExponent style.plusSign d

/-- Numbers shown to people never have an exponent. -/
def plain : FloatNotation := ⟨none, false, false, .up, "NaN", "inf", "-inf"⟩

/-- Numbers inside a described plan: exponent form below `1e-4` and from `1e16` on. -/
def described : FloatNotation := ⟨some (-4, 15), true, false, .up, "NaN", "inf", "-inf"⟩

/-- Double-precision numbers in messages: exponent form below `1e-5` and from `1e16` on;
what is no number is absent. -/
def jsonDouble : FloatNotation := ⟨some (-5, 15), true, true, .toEven, "null", "null", "null"⟩

/-- Single-precision numbers in messages: exponent form below `1e-6` and from `1e13` on. -/
def jsonSingle : FloatNotation := ⟨some (-6, 12), true, true, .toEven, "null", "null", "null"⟩

/-- Write a single-precision number. -/
def single (style : FloatNotation) (bits : UInt32) : String :=
  style.write (Binary.ofBits .single bits.toNat)

/-- Write a double-precision number. -/
def double (style : FloatNotation) (bits : UInt64) : String :=
  style.write (Binary.ofBits .double bits.toNat)

end FloatNotation

end StagedQuery

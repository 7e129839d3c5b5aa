import TrackerQuery.Decimal.Double
import TrackerQuery.Decimal.Integer
import TrackerQuery.Text.Case

/-!
# Reading decimal fractions

A decimal literal denotes a rational number; reading it gives the nearest
double, and of two equally near the one with the even mantissa.  Rounding is
done in exact arithmetic on the ratio, so it does not depend on the length of
the literal.
-/

namespace TrackerQuery.Decimal

/-- The quotient rounded to the nearest integer, a half to the even one. -/
def roundDiv (num den : Nat) : Nat :=
  let q := num / den
  let r := num % den
  if 2 * r < den then q
  else if den < 2 * r then q + 1
  else q + q % 2

/-- A power of two scaled into the ratio `num / den`. -/
def scaleRatio (num den : Nat) (exponent : Int) : Nat × Nat :=
  if 0 ≤ exponent then (num * Nat.pow 2 exponent.toNat, den)
  else (num, den * Nat.pow 2 (-exponent).toNat)

/-- The exponent of the last bit of the double nearest to `num / den`: 53 bits
are kept, fewer below the normal range. -/
def lastBit (num den : Nat) : Int :=
  let guess : Int := (num.log2 : Int) - den.log2 - 52
  let (n, d) := scaleRatio num den (-guess)
  let exact := if n / d < leadingBit then guess - 1 else guess
  max exact (-1074)

/-- The bits of the double nearest to `num / den`, without sign. -/
def bitsOfRatio (num den : Nat) : Nat :=
  if num = 0 then 0
  else
    let q := lastBit num den
    let (n, d) := scaleRatio num den (-q)
    let m := roundDiv n d
    let (m, q) := if m = 2 * leadingBit then (leadingBit, q + 1) else (m, q)
    if 971 < q then infinity
    else if m < leadingBit then m
    else (q + 1075).toNat * leadingBit + (m - leadingBit)

def signed (negative : Bool) (bits : Nat) : Float :=
  Float.ofBits (UInt64.ofNat (if negative then bits + signBit else bits))

/-- An unsigned decimal literal: the digits before and after the point and the
exponent. -/
structure Literal where
  whole : List Char
  fraction : List Char
  exponent : Int

namespace Literal

/-- The bits of the nearest double.  Beyond the range of the exponents the
result is known without forming the power of ten. -/
def bits (l : Literal) : Nat :=
  let digits := l.whole ++ l.fraction
  let significant := digits.dropWhile (· == '0')
  let scale : Int := l.exponent - l.fraction.length
  let magnitude : Int := significant.length + scale
  let value := extend 0 significant
  if value = 0 || magnitude < -400 then 0
  else if 400 < magnitude then infinity
  else if 0 ≤ scale then bitsOfRatio (value * Nat.pow 10 scale.toNat) 1
  else bitsOfRatio value (Nat.pow 10 (-scale).toNat)

/-- Digits on at least one side of an optional point. -/
def mantissa? (cs : List Char) : Option (List Char × List Char × List Char) :=
  let whole := cs.takeWhile isDigit
  let rest := cs.dropWhile isDigit
  match rest with
  | '.' :: rest =>
      let fraction := rest.takeWhile isDigit
      if whole.isEmpty && fraction.isEmpty then none
      else some (whole, fraction, rest.dropWhile isDigit)
  | rest => if whole.isEmpty then none else some (whole, [], rest)

def ofChars? (cs : List Char) : Option Literal := do
  let (whole, fraction, rest) ← mantissa? cs
  match rest with
  | [] => return ⟨whole, fraction, 0⟩
  | mark :: exponent =>
      if mark == 'e' || mark == 'E' then return ⟨whole, fraction, ← int? exponent⟩ else none

end Literal

/-- A number as text: an optional sign, then infinity, not a number or a
decimal literal. -/
def float? (text : String) : Option Float :=
  let (negative, cs) := match text.toList with
    | '-' :: cs => (true, cs)
    | '+' :: cs => (false, cs)
    | cs => (false, cs)
  let word := String.ofList cs
  if Text.sameIgnoringCase word "inf" || Text.sameIgnoringCase word "infinity" then
    some (signed negative infinity)
  else if Text.sameIgnoringCase word "nan" then
    some (signed negative 0x7FF8000000000000)
  else
    (Literal.ofChars? cs).map fun literal => signed negative literal.bits

end TrackerQuery.Decimal

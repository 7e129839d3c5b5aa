import TrackerQuery.Decimal.Double

/-!
# Shortest decimal text of a double

A double prints with the fewest digits that still read back as the same
double; of several such digit strings the nearest one is taken, and of two
equally near the larger.  The notation is always positional.
-/

namespace TrackerQuery.Decimal

/-- A finite non-zero double as `mantissa * 2 ^ exponent`; the neighbour below
is half as far away when the mantissa is the least of its binade. -/
structure Binary where
  mantissa : Nat
  exponent : Int
  narrowBelow : Bool

def Binary.ofBits (bits : Nat) : Binary :=
  let field : Nat := bits / leadingBit % exponentRange
  let fraction := bits % leadingBit
  if field = 0 then ⟨fraction, -1074, false⟩
  else ⟨fraction + leadingBit, (field : Int) - 1075, fraction = 0 && 1 < field⟩

/-- The value and the ends of the interval of reals that round to it, as
numerators over `den`. -/
structure Interval where
  low : Nat
  value : Nat
  high : Nat
  den : Nat
  /-- The ends themselves round to the value. -/
  closed : Bool

def Binary.interval (b : Binary) : Interval :=
  let scale := b.exponent - 2
  let up := Nat.pow 2 scale.toNat
  let down := Nat.pow 2 (-scale).toNat
  { low := (4 * b.mantissa - if b.narrowBelow then 1 else 2) * up
    value := 4 * b.mantissa * up
    high := (4 * b.mantissa + 2) * up
    den := down
    closed := b.mantissa % 2 = 0 }

namespace Interval

/-- The interval with all its numbers divided by `10 ^ power`. -/
def scaled (i : Interval) (power : Int) : Interval :=
  let up := Nat.pow 10 (-power).toNat
  { i with low := i.low * up, value := i.value * up, high := i.high * up,
           den := i.den * Nat.pow 10 power.toNat }

def holds (i : Interval) (n : Nat) : Bool :=
  if i.closed then i.low ≤ n * i.den && n * i.den ≤ i.high
  else i.low < n * i.den && n * i.den < i.high

/-- The integer next to the value that lies in the interval, if one does. -/
def nearest? (i : Interval) : Option Nat :=
  let below := i.value / i.den
  let remainder := i.value % i.den
  match i.holds below, i.holds (below + 1) with
  | true, true => some (if 2 * remainder < i.den then below else below + 1)
  | true, false => some below
  | false, true => some (below + 1)
  | false, false => none

/-- The power of ten of the leading digit of the value. -/
def leadingPower (i : Interval) : Int :=
  if i.den ≤ i.value then ((toString (i.value / i.den)).length : Int) - 1
  else
    let inverse := (i.den + i.value - 1) / i.value
    let digits := (toString inverse).length
    if Nat.pow 10 (digits - 1) = inverse then -((digits : Int) - 1) else -(digits : Int)

end Interval

/-- The digits and the power of ten of the last one, with at least `count`
digits; 17 always suffice. -/
def shortestFrom (i : Interval) (leading : Int) : (tries : Nat) → (count : Nat) → Nat × Int
  | 0, _ => (0, 0)
  | tries + 1, count =>
      let power := leading + 1 - count
      match (i.scaled power).nearest? with
      | some n => (n, power)
      | none => shortestFrom i leading tries (count + 1)

def shortest (bits : Nat) : Nat × Int :=
  let i := (Binary.ofBits bits).interval
  shortestFrom i i.leadingPower 18 1

/-- `n * 10 ^ power` in positional notation. -/
def positional (n : Nat) (power : Int) : String :=
  let digits := (toString n).toList
  if 0 ≤ power then String.ofList (digits ++ List.replicate power.toNat '0')
  else
    let places := (-power).toNat
    let filled := List.replicate (places + 1 - digits.length) '0' ++ digits
    let whole := filled.take (filled.length - places)
    let fraction := (filled.drop (filled.length - places)).reverse.dropWhile (· == '0') |>.reverse
    if fraction.isEmpty then String.ofList whole else String.ofList (whole ++ '.' :: fraction)

/-- The text of a double. -/
def renderFloat (x : Float) : String :=
  if x.isNaN then "NaN"
  else
    let bits := x.toBits.toNat
    let magnitude := bits % signBit
    let text :=
      if magnitude = infinity then "inf"
      else if magnitude = 0 then "0"
      else
        let (n, power) := shortest magnitude
        positional n power
    if signBit ≤ bits then "-" ++ text else text

end TrackerQuery.Decimal

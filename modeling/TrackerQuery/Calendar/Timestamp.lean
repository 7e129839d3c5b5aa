import TrackerQuery.Calendar.Literal

/-!
# Timestamps

The exact form of a point in time that callers pass in: a date, a time of day
to the second with an optional fraction, and `Z` or an offset.  Every number
has its full count of digits and nothing may be left out.
-/

namespace TrackerQuery.Calendar

/-- A number of exactly `width` digits in a range. -/
def exactly? (width low high : Nat) (cs : List Char) : Option (Nat × List Char) := do
  let (digits, rest) := (cs.take width, cs.drop width)
  if digits.length ≠ width || !digits.all Decimal.isDigit then none
  let n ← Decimal.natOfDigits? digits
  if low ≤ n && n ≤ high then some (n, rest) else none

/-- The text after one of the characters. -/
def oneOf? (allowed : List Char) : List Char → Option (List Char)
  | c :: rest => if allowed.contains c then some rest else none
  | [] => none

/-- Seconds ahead of UTC: `Z`, or a sign, hours and minutes.  The minus sign of
typography is one too. -/
def exactOffset? (cs : List Char) : Option Int := do
  match cs with
  | ['Z'] | ['z'] => return 0
  | sign :: rest =>
      let factor : Int ←
        if sign = '+' then some 1 else if sign = '-' || sign = '−' then some (-1) else none
      let (hours, rest) ← exactly? 2 0 23 rest
      let (minutes, rest) ← exactly? 2 0 59 (← oneOf? [':'] rest)
      if rest.isEmpty then return factor * ((hours * 60 + minutes) * 60 : Nat) else none
  | [] => none

/-- The instant that a timestamp denotes. -/
def timestamp? (text : String) : Option Instant := do
  let (year, rest) ← exactly? 4 0 9999 text.toList
  let (month, rest) ← exactly? 2 1 12 (← oneOf? ['-'] rest)
  let (day, rest) ← exactly? 2 1 31 (← oneOf? ['-'] rest)
  let (hour, rest) ← exactly? 2 0 23 (← oneOf? ['T', 't', ' '] rest)
  let (minute, rest) ← exactly? 2 0 59 (← oneOf? [':'] rest)
  let (second, rest) ← exactly? 2 0 60 (← oneOf? [':'] rest)
  let (nanos, rest) ← match rest with
    | '.' :: rest => fraction? rest
    | rest => some (0, rest)
  let offset ← exactOffset? rest
  let reading ← Fields.reading? { year, month, day, hour, minute, second, nanos }
  return ⟨← reading.ahead? (-offset)⟩

end TrackerQuery.Calendar

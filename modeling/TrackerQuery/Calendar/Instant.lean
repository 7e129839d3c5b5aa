import TrackerQuery.Calendar.Date

/-!
# Clock readings and instants

A clock reading is a date and a time of day as a clock in some zone shows it.
An instant is the reading of the UTC clock.  Readings resolve nanoseconds; a
leap second is the second before it with a thousand million nanoseconds or
more.
-/

namespace TrackerQuery.Calendar

/-- A clock reading, in seconds from 1970-01-01T00:00:00 on the same clock. -/
structure Reading where
  seconds : Int
  nanos : Nat
  deriving DecidableEq, Repr, Inhabited

namespace Reading

def secondsPerDay : Int := 86400

def nanosPerSecond : Nat := 1000000000

def dayNumber (r : Reading) : Int :=
  r.seconds / secondsPerDay

def date (r : Reading) : Date :=
  .ofDayNumber r.dayNumber

def secondOfDay (r : Reading) : Nat :=
  (r.seconds % secondsPerDay).toNat

def hour (r : Reading) : Nat :=
  r.secondOfDay / 3600

def minute (r : Reading) : Nat :=
  r.secondOfDay / 60 % 60

def second (r : Reading) : Nat :=
  r.secondOfDay % 60

/-- The reading of a date and a time of day. -/
def ofParts (date : Date) (secondOfDay nanos : Nat) : Reading :=
  ⟨date.dayNumber * secondsPerDay + secondOfDay, nanos⟩

/-- The date of the reading is in the supported range. -/
def inRange (r : Reading) : Bool :=
  (Date.mk Date.firstYear 1 1).dayNumber ≤ r.dayNumber
    && r.dayNumber ≤ (Date.mk Date.lastYear 12 31).dayNumber

/-- The reading of a clock that is `seconds` ahead. -/
def ahead (r : Reading) (seconds : Int) : Reading :=
  { r with seconds := r.seconds + seconds }

def ahead? (r : Reading) (seconds : Int) : Option Reading :=
  some (r.ahead seconds) |>.filter inRange

/-- Midnight at the start of the day of the reading. -/
def startOfDay (r : Reading) : Reading :=
  ⟨r.dayNumber * secondsPerDay, 0⟩

def isMidnight (r : Reading) : Bool :=
  r.secondOfDay == 0 && r.nanos == 0

/-- The reading moved by whole seconds and by nanoseconds of the same sign.  A
move out of a leap second counts that second as the one after it when going
back, and as the one before it when going forward. -/
def move (r : Reading) (seconds : Int) (nanos : Int) : Reading :=
  let unit : Int := nanosPerSecond
  let total : Int := r.nanos + nanos
  if nanosPerSecond ≤ r.nanos && seconds = 0 && !(0 < nanos && 2 * unit ≤ total) then
    { r with nanos := total.toNat }
  else
    let (start, fraction) : Int × Int :=
      if r.nanos < nanosPerSecond then (r.seconds, r.nanos)
      else if 0 ≤ seconds then (r.seconds, r.nanos - unit)
      else (r.seconds + 1, r.nanos - unit)
    let sum := fraction + nanos
    if sum < 0 then ⟨start + seconds - 1, (sum + unit).toNat⟩
    else if unit ≤ sum then ⟨start + seconds + 1, (sum - unit).toNat⟩
    else ⟨start + seconds, sum.toNat⟩

def move? (r : Reading) (seconds : Int) (nanos : Int) : Option Reading :=
  some (r.move seconds nanos) |>.filter inRange

end Reading

/-- A point in time. -/
structure Instant where
  /-- What the UTC clock shows. -/
  utc : Reading
  deriving DecidableEq, Repr, Inhabited

namespace Instant

/-- Moves by milliseconds; `none` outside the supported range of dates. -/
def addMillis? (t : Instant) (millis : Int) : Option Instant :=
  (t.utc.move? (millis.tdiv 1000) (millis.tmod 1000 * 1000000)).map Instant.mk

end Instant

end TrackerQuery.Calendar

import TrackerQuery.Calendar.Instant

/-!
# Time zones

A zone says how far its clocks are ahead of UTC at each instant: an offset that
holds from the beginning and the instants at which it changes.  A local reading
may belong to no instant, when clocks were put forward over it, or to several,
when they were put back.  A zone carries the proof that its offsets are less
than a day, that its changes come in order, and that none of them puts clocks
back by more than a day.
-/

namespace TrackerQuery.Calendar

namespace Zone

/-- The changes come in order, all after `start`, and each follows a rule on its
instant and on the offsets before and after it. -/
def changesFollow (rule : (stop before after : Int) → Bool) :
    (start : Option Int) → (current : Int) → List (Int × Int) → Bool
  | _, _, [] => true
  | start, current, (stop, offset) :: later => start.all (· < stop) && rule stop current offset &&
      changesFollow rule (some stop) offset later

/-- The offset is less than a day, to the nearest minute. -/
def isOffset (offset : Int) : Bool :=
  (offset.natAbs + 30) / 60 < 24 * 60

/-- Clocks are put back by a day at most, and forward to less than a day ahead
of UTC. -/
def isChange (_stop before after : Int) : Bool :=
  isOffset after && before - Reading.secondsPerDay ≤ after

end Zone

structure Zone where
  name : String
  /-- Seconds ahead of UTC before the first change. -/
  initial : Int
  /-- The instants of change, in UTC seconds, with the offset that holds from
  there on. -/
  changes : List (Int × Int)
  initial_isOffset : Zone.isOffset initial = true := by decide
  changes_follow : Zone.changesFollow Zone.isChange none initial changes = true := by
    decide +kernel

/-- The zones by their names. -/
abbrev ZoneTable := String → Option Zone

namespace Zone

def fixed (name : String) (offset : Int) (h : isOffset offset = true := by decide) : Zone :=
  ⟨name, offset, [], h, rfl⟩

def utc : Zone := .fixed "UTC" 0

instance : Inhabited Zone := ⟨utc⟩

/-- The offset in force at a UTC second, given the one in force before. -/
def offsetFrom (current : Int) : List (Int × Int) → Int → Int
  | [], _ => current
  | (start, offset) :: later, seconds =>
      if seconds < start then current else offsetFrom offset later seconds

def offsetAt (zone : Zone) (t : Instant) : Int :=
  offsetFrom zone.initial zone.changes t.utc.seconds

/-- What a clock in the zone shows. -/
def reading (zone : Zone) (t : Instant) : Reading :=
  t.utc.ahead (zone.offsetAt t)

/-- The offset of the first period in which clocks show the local second,
where the first of the periods has offset `current`. -/
def earliestOffset? (current : Int) (start : Option Int) :
    List (Int × Int) → (seconds : Int) → Option Int
  | [], seconds =>
      if start.all (· + current ≤ seconds) then some current else none
  | (stop, offset) :: later, seconds =>
      if start.all (· + current ≤ seconds) && seconds < stop + current then some current
      else earliestOffset? offset (some stop) later seconds

/-- The earliest instant at which a clock in the zone shows the reading. -/
def earliest? (zone : Zone) (r : Reading) : Option Instant := do
  let offset ← earliestOffset? zone.initial none zone.changes r.seconds
  let utc ← r.ahead? (-offset)
  return ⟨utc⟩

/-- The first instant of the local day; where no clock shows its midnight, the
instant itself. -/
def startOfDay (zone : Zone) (t : Instant) : Instant :=
  (zone.earliest? (zone.reading t).startOfDay).getD t

def isMidnight (zone : Zone) (t : Instant) : Bool :=
  (zone.reading t).isMidnight

/-- Moves by calendar days and keeps the local time of day; `none` where no
clock shows the result. -/
def addDays? (zone : Zone) (t : Instant) (days : Int) : Option Instant := do
  zone.earliest? (← (zone.reading t).move? (days * Reading.secondsPerDay) 0)

end Zone

end TrackerQuery.Calendar

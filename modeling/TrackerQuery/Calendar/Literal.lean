import TrackerQuery.Calendar.Locale
import TrackerQuery.Calendar.Zone
import TrackerQuery.Decimal.Integer
import TrackerQuery.Text.Blank

/-!
# Date literals

Dates in queries are texts.  Four forms are understood: a date and time that
ends in `Z`, one that ends in `GMT` and an offset, one without a zone that is
read in the zone of the settings, and a short date in the order of the locale.
Printing writes the first two forms.
-/

namespace TrackerQuery.Calendar

/-! ## Fixed forms -/

/-- A part of a fixed form.  Numbers may be preceded by blanks. -/
inductive Part where
  /-- Up to four digits, or a sign and any number of digits. -/
  | year
  | month
  | day
  | hour
  | minute
  | second
  /-- An optional point and digits, of which nine count. -/
  | fraction
  | char (c : Char)
  | blanks
  deriving DecidableEq, Repr

/-- The values read so far. -/
structure Fields where
  year : Int := 0
  month : Nat := 1
  day : Nat := 1
  hour : Nat := 0
  minute : Nat := 0
  second : Nat := 0
  nanos : Nat := 0
  deriving Repr

/-- Between one and `width` digits. -/
def digits? (width : Nat) (cs : List Char) : Option (Nat × List Char) :=
  let digits := (cs.take width).takeWhile Decimal.isDigit
  (Decimal.natOfDigits? digits).map (·, cs.drop digits.length)

/-- A number of at most two digits in a range. -/
def small? (low high : Nat) (cs : List Char) : Option (Nat × List Char) :=
  (digits? 2 (cs.dropWhile Text.isBlank)).filter fun (n, _) => low ≤ n && n ≤ high

def year? (cs : List Char) : Option (Int × List Char) :=
  match cs.dropWhile Text.isBlank with
  | '-' :: rest => (digits? rest.length rest).map fun (n, rest) => (-(n : Int), rest)
  | '+' :: rest => (digits? rest.length rest).map fun (n, rest) => ((n : Int), rest)
  | rest => (digits? 4 rest).map fun (n, rest) => ((n : Int), rest)

/-- The nanoseconds that the digits after a decimal point denote. -/
def fraction? (cs : List Char) : Option (Nat × List Char) :=
  let digits := (cs.take 9).takeWhile Decimal.isDigit
  (Decimal.natOfDigits? digits).map fun n =>
    (n * Nat.pow 10 (9 - digits.length), (cs.drop digits.length).dropWhile Decimal.isDigit)

def Part.read? (part : Part) (f : Fields) (cs : List Char) : Option (Fields × List Char) :=
  match part with
  | .year => (year? cs).map fun (n, rest) => ({ f with year := n }, rest)
  | .month => (small? 1 12 cs).map fun (n, rest) => ({ f with month := n }, rest)
  | .day => (small? 1 31 cs).map fun (n, rest) => ({ f with day := n }, rest)
  | .hour => (small? 0 23 cs).map fun (n, rest) => ({ f with hour := n }, rest)
  | .minute => (small? 0 59 cs).map fun (n, rest) => ({ f with minute := n }, rest)
  | .second => (small? 0 60 cs).map fun (n, rest) => ({ f with second := n }, rest)
  | .fraction =>
      match cs with
      | '.' :: rest => (fraction? rest).map fun (n, rest) => ({ f with nanos := n }, rest)
      | rest => some (f, rest)
  | .char c =>
      match cs with
      | d :: rest => if c = d then some (f, rest) else none
      | [] => none
  | .blanks => some (f, cs.dropWhile Text.isBlank)

/-- Reads the parts one after the other; nothing may be left. -/
def readParts? (f : Fields) : List Part → List Char → Option Fields
  | [], [] => some f
  | [], _ :: _ => none
  | part :: parts, cs =>
      match part.read? f cs with
      | some (f, rest) => readParts? f parts rest
      | none => none

/-- The reading with these values, if the date exists.  Second 60 is the leap
second after second 59. -/
def Fields.reading? (f : Fields) : Option Reading := do
  let date ← Date.ofParts? f.year f.month f.day
  let minutes := f.hour * 60 + f.minute
  if f.second = 60 then
    return .ofParts date (minutes * 60 + 59) (f.nanos + Reading.nanosPerSecond)
  else
    return .ofParts date (minutes * 60 + f.second) f.nanos

def dateParts : List Part :=
  [.year, .char '-', .month, .char '-', .day]

/-- The fixed forms in the order they are tried. -/
def fixedForms : List (List Part) :=
  [dateParts ++ [Part.char 'T', .hour, .char ':', .minute, .char ':', .second, .fraction],
   dateParts ++ [Part.char 'T', .hour, .char ':', .minute],
   dateParts ++ [Part.blanks, .hour, .char ':', .minute, .char ':', .second, .fraction],
   dateParts ++ [Part.blanks, .hour, .char ':', .minute],
   dateParts]

def fixed? (cs : List Char) : Option Reading :=
  fixedForms.findSome? fun parts => (readParts? {} parts cs).bind Fields.reading?

/-! ## Short dates -/

/-- A time of day: hours, minutes, optional seconds and an optional half of
the day. -/
def timeOfDay? : List String → Option Nat
  | [] => some 0
  | clock :: half => do
      let fields := Text.split (· == ':') clock
      let hour ← Decimal.nat32? (← fields[0]?)
      let minute ← Decimal.nat32? (← fields[1]?)
      let second ← match fields[2]? with
        | some text => Decimal.nat32? text
        | none => some 0
      let hour ← match half with
        | [] => some hour
        | [word] =>
            if Text.sameIgnoringCase word "PM" then some (if hour < 12 then hour + 12 else hour)
            else if Text.sameIgnoringCase word "AM" then some (if hour = 12 then 0 else hour)
            else none
        | _ => none
      if hour < 24 && minute < 60 && second < 60 then
        some (hour * 3600 + minute * 60 + second)
      else none

/-- Years below 50 belong to this century, years below 100 to the last one;
larger ones count as 32-bit words. -/
def fullYear (n : Nat) : Int :=
  if n < 50 then 2000 + n else if n < 100 then 1900 + n else Decimal.wrap32 n

/-- Three numbers with separators and an optional time of day.  A first number
of four digits is the year. -/
def short? (order : DateOrder) (text : String) : Option Reading := do
  let words := Text.words text
  let parts := (Text.split (fun c => c == '/' || c == '.' || c == '-') (← words.head?)).filter
    fun part => !part.isEmpty
  match parts with
  | [a, b, c] =>
      if !(parts.all fun part => part.toList.all Decimal.isDigit) then none
      let first ← Decimal.nat32? a
      let second ← Decimal.nat32? b
      let third ← Decimal.nat32? c
      let order := if a.length = 4 then .yearMonthDay else order
      let date ← match order with
        | .monthDayYear => Date.ofParts? (fullYear third) first second
        | .dayMonthYear => Date.ofParts? (fullYear third) second first
        | .yearMonthDay => Date.ofParts? (fullYear first) second third
      return .ofParts date (← timeOfDay? words.tail) 0
  | _ => none

/-! ## Offsets -/

/-- A bare offset `±hh:mm` right after a time becomes ` GMT±hh:mm`. -/
def markOffset (text : String) : String :=
  let cs := text.toList
  let body := cs.take (cs.length - 6)
  match cs.drop (cs.length - 6) with
  | [sign, h1, h2, colon, m1, m2] =>
      if !Text.containsText " GMT".toList cs && (sign == '+' || sign == '-')
          && [h1, h2, m1, m2].all Decimal.isDigit && colon == ':'
          && body.getLast?.any Decimal.isDigit && body.contains ':' then
        String.ofList (body ++ " GMT".toList ++ [sign, h1, h2, colon, m1, m2])
      else text
  | _ => text

def sign? (c : Char) : Option Int :=
  if c == '+' then some 1 else if c == '-' then some (-1) else none

/-- The hours and optional minutes of an offset, each of which may carry a sign
of its own. -/
def clock? (cs : List Char) : Option (Int × Int) :=
  let clock := match Text.cut? (· == ':') cs with
    | some (hours, minutes) => do
        pure (← Decimal.int32? (String.ofList hours), ← Decimal.int32? (String.ofList minutes))
    | none => do pure (← Decimal.int32? (String.ofList cs), 0)
  clock.filter fun (hours, minutes) => hours ≤ 23 && minutes ≤ 59

/-- The seconds of an offset.  Every step has to stay within a word. -/
def offsetSeconds (sign hours minutes : Int) : Except Decimal.Overflow Int := do
  let ofHours ← Decimal.checked32 (hours * 3600)
  let ofMinutes ← Decimal.checked32 (minutes * 60)
  let seconds ← Decimal.checked32 (ofHours + ofMinutes)
  Decimal.checked32 (sign * seconds)

/-- Seconds ahead of UTC, of less than a day: nothing, or a sign, hours and
optional minutes. -/
def offset (text : String) : Except Decimal.Overflow (Option Int) :=
  match (Text.trim text).toList with
  | [] => .ok (some 0)
  | c :: rest =>
      match sign? c, clock? rest with
      | some sign, some (hours, minutes) => do
          let seconds ← offsetSeconds sign hours minutes
          return if -Reading.secondsPerDay < seconds && seconds < Reading.secondsPerDay then
            some seconds else none
      | _, _ => .ok none

/-! ## Literals -/

/-- The forms of literals, up to where the parts are read. -/
inductive LiteralForm where
  | universal (body : List Char)
  | offset (body suffix : List Char)
  /-- A fixed form or a short date, in local time. -/
  | plain (text : String)
  deriving DecidableEq

namespace LiteralForm

def ofText? (text : String) : Option LiteralForm :=
  let cs := (Text.trim text).toList
  if cs.isEmpty then none
  else if cs.getLast? == some 'Z' || cs.getLast? == some 'z' then some (.universal cs.dropLast)
  else
    let marked := markOffset (Text.trim text)
    match Text.cutLast? " GMT".toList marked.toList with
    | some (body, suffix) => some (.offset body suffix)
    | none => some (.plain marked)

/-- The offset is read before the date and time in front of it. -/
def instant (locale : String) (zone : Zone) :
    LiteralForm → Except Decimal.Overflow (Option Instant)
  | .universal body => .ok ((fixed? body).map Instant.mk)
  | .offset body suffix => do
      let offset ← Calendar.offset (String.ofList suffix)
      return do
        let reading ← fixed? (Text.trimChars body)
        (reading.ahead? (-(← offset))).map Instant.mk
  | .plain text =>
      .ok (((fixed? text.toList).or (short? (.ofLocale locale) text)).bind zone.earliest?)

end LiteralForm

/-- Reads a literal, which denotes an instant or is no date. -/
def instant (locale : String) (zone : Zone) (text : String) :
    Except Decimal.Overflow (Option Instant) :=
  match LiteralForm.ofText? text with
  | some form => form.instant locale zone
  | none => .ok none

/-- The instant that a literal denotes. -/
def instant? (locale : String) (zone : Zone) (text : String) : Option Instant :=
  (instant locale zone text).toOption.join

/-! ## Printing -/

/-- Four digits at least, with a sign outside the years 0 to 9999. -/
def renderYear (year : Int) : String :=
  let digits := Decimal.padded 4 year.natAbs
  if year < 0 then "-" ++ digits else if 9999 < year then "+" ++ digits else digits

/-- Date and time to the millisecond; later digits are cut off. -/
def Reading.render (r : Reading) : String :=
  let date := r.date
  let two := Decimal.padded 2
  let second := r.second + r.nanos / Reading.nanosPerSecond
  let millis := Decimal.padded 3 (r.nanos % Reading.nanosPerSecond / 1000000)
  s!"{renderYear date.year}-{two date.month}-{two date.day}"
    ++ s!"T{two r.hour}:{two r.minute}:{two second}.{millis}"

/-- An offset to the nearest minute. -/
def renderOffset (seconds : Int) : String :=
  let minutes := (seconds.natAbs + 30) / 60
  let sign := if seconds < 0 then "-" else "+"
  s!"{sign}{Decimal.padded 2 (minutes / 60)}:{Decimal.padded 2 (minutes % 60)}"

def Instant.renderUniversal (t : Instant) : String :=
  t.utc.render ++ "Z"

def Instant.renderLocal (t : Instant) (zone : Zone) : String :=
  s!"{(zone.reading t).render} GMT{renderOffset (zone.offsetAt t)}"

/-! ## Arithmetic -/

/-- The integer part of a double, within 64 bits. -/
def saturate (x : Float) : Int :=
  x.toInt64.toInt

/-- Moves by a number of days that need not be whole, to the nearest
millisecond. -/
def Instant.addFraction? (t : Instant) (days : Float) : Option Instant :=
  let millis := saturate ((days * 86400000.0 + 0.5).floor)
  if millis = Decimal.least64 then none else t.addMillis? millis

end TrackerQuery.Calendar

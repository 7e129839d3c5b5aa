import TrackerQuery.Text.Case
import TrackerQuery.Text.Split

/-!
# Locales

A locale is a language tag such as `en-US`.  It decides the order of day, month
and year in a short date.
-/

namespace TrackerQuery.Calendar

inductive DateOrder where
  | monthDayYear
  | dayMonthYear
  | yearMonthDay
  deriving DecidableEq, Repr, Inhabited

namespace DateOrder

def render : DateOrder → String
  | .monthDayYear => "MonthDayYear"
  | .dayMonthYear => "DayMonthYear"
  | .yearMonthDay => "YearMonthDay"

def yearFirstLanguages : List String :=
  ["ja", "zh", "ko", "hu", "lt"]

def monthFirstLocales : List String :=
  ["en-us", "en", "en-ph"]

def ofLocale (locale : String) : DateOrder :=
  let tag := (Text.asciiLowercase locale).map fun c => if c = '_' then '-' else c
  let language := (Text.split (· == '-') tag).headD ""
  if monthFirstLocales.contains tag then .monthDayYear
  else if yearFirstLanguages.contains language then .yearMonthDay
  else .dayMonthYear

end DateOrder

def isAsciiLetter (c : Char) : Bool :=
  ('a' ≤ c && c ≤ 'z') || ('A' ≤ c && c ≤ 'Z')

def isAsciiAlphanumeric (c : Char) : Bool :=
  isAsciiLetter c || ('0' ≤ c && c ≤ '9')

/-- A language of two or three letters, then subtags of two to eight letters
and digits. -/
def isLocale (locale : String) : Bool :=
  match Text.splitChars (fun c => c == '-' || c == '_') locale.toList with
  | [] => false
  | language :: subtags =>
      2 ≤ language.length && language.length ≤ 3 && language.all isAsciiLetter
        && subtags.all fun tag =>
          2 ≤ tag.length && tag.length ≤ 8 && tag.all isAsciiAlphanumeric

end TrackerQuery.Calendar

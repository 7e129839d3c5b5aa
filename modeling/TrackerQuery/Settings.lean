import TrackerQuery.Calendar.Locale
import TrackerQuery.Calendar.Zone
import TrackerQuery.Error
import TrackerQuery.Json

/-!
# Settings

How queries are compiled: the zone and locale of date literals, whether dates
are compared by the day, and which features the server has.
-/

namespace TrackerQuery

structure Settings where
  /-- Dates are compared by whole days. -/
  dayPrecision : Bool := false
  /-- The product named in documents; the catalog's if empty. -/
  product : String := ""
  timeZone : String := "UTC"
  locale : String := "en-US"
  supportsFieldComparison : Bool := true
  supportsLinkQueries : Bool := true
  supportsInGroup : Bool := true
  /-- Unknown macros are left to the server. -/
  serverSideMacros : Bool := false
  deriving DecidableEq, Repr, Inhabited

namespace Settings

def zone (zones : Calendar.ZoneTable) (settings : Settings) : Except Error Calendar.Zone :=
  match zones settings.timeZone with
  | some zone => .ok zone
  | none => .error (.config s!"无效的时区: {settings.timeZone}")

/-- The zone is known and the locale is a language tag. -/
def validate (zones : Calendar.ZoneTable) (settings : Settings) : Except Error Unit := do
  let _ ← settings.zone zones
  Error.ensure (Calendar.isLocale settings.locale) (.config s!"无效的区域设置: {settings.locale}")

open Json in
def ofJson? (json : Json) : Option Settings := do
  let members ← json.members
    ["day_precision", "product", "time_zone", "locale", "supports_field_comparison",
     "supports_link_queries", "supports_in_group", "server_side_macros"]
  let preset : Settings := {}
  let flag (key : String) (value : Bool) := optional members key bool? value
  let text (key : String) (value : String) := optional members key string? value
  return { dayPrecision := ← flag "day_precision" preset.dayPrecision
           product := ← text "product" preset.product
           timeZone := ← text "time_zone" preset.timeZone
           locale := ← text "locale" preset.locale
           supportsFieldComparison :=
             ← flag "supports_field_comparison" preset.supportsFieldComparison
           supportsLinkQueries := ← flag "supports_link_queries" preset.supportsLinkQueries
           supportsInGroup := ← flag "supports_in_group" preset.supportsInGroup
           serverSideMacros := ← flag "server_side_macros" preset.serverSideMacros }

/-- The settings that a JSON text holds, without a check of their values. -/
def decode (text : String) : Except Error Settings :=
  match (Json.parse? text).bind ofJson? with
  | some settings => .ok settings
  | none => .error (.serialization "invalid settings")

/-- The settings that a JSON text holds, checked. -/
def read (zones : Calendar.ZoneTable) (text : String) : Except Error Settings := do
  let settings ← decode text
  settings.validate zones
  return settings

end Settings

end TrackerQuery

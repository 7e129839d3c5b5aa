import TrackerQuery.Catalog
import TrackerQuery.Decimal.Shortest
import TrackerQuery.Schema
import TrackerQuery.Settings

/-!
# Sessions

A session is what a query is compiled in: the catalog, the settings with their
zone, the values the caller gives to macros, and the current time.
-/

namespace TrackerQuery

/-- A value that the caller gives to a macro. -/
inductive ContextValue where
  | dateTime (value : Calendar.Instant)
  | number (value : Int)
  | double (value : Float)
  | string (value : String)
  deriving Inhabited

namespace ContextValue

def dataType : ContextValue → DataType
  | .dateTime _ => .date
  | .number _ | .double _ => .numeric
  | .string _ => .string

def typeName : ContextValue → String
  | .dateTime _ => "DateTime"
  | .number _ => "Number"
  | .double _ => "Double"
  | .string _ => "String"

def render : ContextValue → String
  | .dateTime value => value.renderUniversal
  | .number value => toString value
  | .double value => Decimal.renderFloat value
  | .string value => value

end ContextValue

/-- Macro values in the order in which they were first given. -/
abbrev Context := List (String × ContextValue)

namespace Context

/-- Gives a value to a macro; a new value takes the place of the old one. -/
def insert (context : Context) (name : String) (value : ContextValue) : Context :=
  match context with
  | [] => [(name, value)]
  | entry :: rest =>
      if entry.1 == name then (name, value) :: rest else entry :: Context.insert rest name value

def erase (context : Context) (name : String) : Context :=
  context.filter fun entry => entry.1 != name

def has (context : Context) (name : String) : Bool :=
  (context.lookup name).isSome

end Context

structure Session where
  catalog : Catalog
  settings : Settings
  zone : Calendar.Zone
  context : Context := []
  now : Calendar.Instant := ⟨⟨0, 0⟩⟩
  deriving Inhabited

namespace Session

/-- A session under the settings, whose zone has to be in the table. -/
def start (zones : Calendar.ZoneTable) (catalog : Catalog) (settings : Settings)
    (context : Context) (now : Calendar.Instant) : Except Error Session := do
  return { catalog, settings, zone := ← settings.zone zones, context, now }

def dates (session : Session) : DateStyle :=
  ⟨session.settings.locale, session.zone⟩

/-- The definition of a resolved field. -/
def definition? (session : Session) (field : FieldRef) : Option FieldDefinition :=
  field.id.bind session.catalog.fieldById?

def definition (session : Session) (field : FieldRef) : Except Error FieldDefinition :=
  match session.definition? field with
  | some definition => .ok definition
  | none => .error (.located .fieldDoesNotExist field.span)

/-- The instant of a date literal that stands at a place. -/
def instant (session : Session) (text : String) (span : Span) : Except Error Calendar.Instant := do
  match ← session.dates.instant text with
  | some instant => return instant
  | none => .error (.located .invalidDate span)

/-! ## The meaning of names -/

def findTable (session : Session) (name : String) : Except Error (Option QueryMode) :=
  match QueryMode.ofTable name with
  | .unknown => .ok none
  | mode =>
      if mode.isLinkQuery && !session.settings.supportsLinkQueries then
        .error (.notSupported "服务器不支持链接查询")
      else .ok (some mode)

/-- Values of the caller come before the built-in macros, which are found in
any case. -/
def findVariable (session : Session) (name : String) : Option Macro :=
  if session.context.has name then some { target := name }
  else if Text.sameIgnoringCase name "me" then some { target := "me" }
  else if Text.sameIgnoringCase name "today" then some { target := "today" }
  else if session.settings.serverSideMacros then some { target := name, leftToServer := true }
  else none

def fieldType (session : Session) (id : Int) : DataType :=
  ((session.catalog.fieldById? id).map FieldDefinition.dataType).getD .unknown

def variableType (session : Session) (target : String) : DataType :=
  match session.context.lookup target with
  | some value => value.dataType
  | none => if target == "me" then .string else if target == "today" then .date else .unknown

def sourceQualifier : String := "Source"

def targetQualifier : String := "Target"

/-- Link queries reach work item fields through the source or the target, and
the source is meant where none is named.  Elsewhere a field has no
qualifier. -/
def qualifier (session : Session) (field : FieldRef) (table : Option TableRef) :
    Except Error (Option String) := do
  let definition ← session.definition field
  let invalid : Error := .located .invalidFieldPrefix field.span
  let mode := (table.map TableRef.mode).getD .unknown
  if !mode.isLinkQuery || definition.isLinkField then
    Error.ensure field.qualifier.isNone invalid
    return none
  match field.qualifier with
  | none => return some sourceQualifier
  | some name =>
      if Text.sameIgnoringCase name sourceQualifier then return some sourceQualifier
      else if Text.sameIgnoringCase name targetQualifier then return some targetQualifier
      else .error invalid

end Session

end TrackerQuery

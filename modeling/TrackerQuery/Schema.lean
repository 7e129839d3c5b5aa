import TrackerQuery.Attempt
import TrackerQuery.Calendar.Literal
import TrackerQuery.Decimal.Binary
import TrackerQuery.Select

/-!
# Schemas

What a query is resolved against: the meaning of its names, the types of what
they stand for, and the rules that resolved expressions have to obey.
-/

namespace TrackerQuery

/-- How date literals are read. -/
structure DateStyle where
  locale : String
  zone : Calendar.Zone
  deriving Inhabited

namespace DateStyle

def instant (style : DateStyle) (text : String) : Except Error (Option Calendar.Instant) :=
  (Calendar.instant style.locale style.zone text).mapError fun _ => .overflow

/-- The instant that a literal denotes. -/
def instant? (style : DateStyle) (text : String) : Option Calendar.Instant :=
  Calendar.instant? style.locale style.zone text

end DateStyle

/-- The table of the query and the field on the left of the condition around
an expression. -/
structure Scope where
  table : Option TableRef := none
  field : Option FieldRef := none
  deriving Inhabited

namespace Scope

def withField (scope : Scope) (field : FieldRef) : Scope :=
  { scope with field := some field }

def mode (scope : Scope) : QueryMode :=
  (scope.table.map TableRef.mode).getD .unknown

def fieldType? (scope : Scope) : Option DataType :=
  scope.field.map FieldRef.type

end Scope

/-- What the name of a macro stands for. -/
structure Macro where
  /-- The canonical name. -/
  target : String
  leftToServer : Bool := false
  deriving DecidableEq, Repr, Inhabited

structure Schema where
  /-- The identity of the field with a name. -/
  findField : String → Option Int
  findTable : String → Except Error (Option QueryMode)
  findVariable : String → Option Macro
  fieldType : Int → DataType
  variableType : String → DataType
  /-- The canonical qualifier of a resolved field of a table. -/
  qualifier : FieldRef → Option TableRef → Except Error (Option String)
  verifyExpr : Scope → Expr → Except Error Unit
  verifyFields : FieldList → Except Error Unit
  verifyQuery : Select → Except Error Unit
  dates : DateStyle

/-- A schema without rules, in which every field but `Missing` is a text field,
every table holds work items, and `@me` is the only macro. -/
def Schema.lenient : Schema where
  findField name := if name == "Missing" then none else some 1
  findTable _ := .ok (some .workItems)
  findVariable name := if name == "me" then some { target := "me" } else none
  fieldType _ := .string
  variableType _ := .string
  qualifier field _ := .ok field.qualifier
  verifyExpr _ _ := .ok ()
  verifyFields _ := .ok ()
  verifyQuery _ := .ok ()
  dates := ⟨"en-US", .utc⟩

/-! ## Constants that fit a type -/

/-- The characters of a GUID without decoration: 32 hexadecimal digits, in one
run or with hyphens after 8, 12, 16 and 20 of them. -/
def isPlainGuid (cs : List Char) : Bool :=
  let isHex (c : Char) := Decimal.isDigit c || ('a' ≤ c && c ≤ 'f') || ('A' ≤ c && c ≤ 'F')
  match Text.splitChars (· == '-') cs with
  | [a, b, c, d, e] =>
      [a, b, c, d, e].map List.length == [8, 4, 4, 4, 12] && [a, b, c, d, e].all (·.all isHex)
  | _ => false

/-- A GUID: bare, with hyphens, with hyphens in braces, or as a URN. -/
def isGuid (text : String) : Bool :=
  let cs := text.toList
  let isHex (c : Char) := Decimal.isDigit c || ('a' ≤ c && c ≤ 'f') || ('A' ≤ c && c ≤ 'F')
  if cs.length = 32 then cs.all isHex
  else if isPlainGuid cs then true
  else if cs.head? == some '\x7b' && cs.getLast? == some '\x7d' then isPlainGuid (cs.drop 1).dropLast
  else Text.sameIgnoringCase (String.ofList (cs.take 9)) "urn:uuid:" && isPlainGuid (cs.drop 9)

namespace Expr

/-- A string constant can stand for a value of the type. -/
def stringCastsTo (dates : DateStyle) (value : String) : DataType → Except Error Bool
  | .string => .ok true
  | type =>
      if value.isEmpty then .ok true
      else
        match type with
        | .date => (dates.instant value).map Option.isSome
        | .numeric => .ok (Decimal.float? (Text.trim value)).isSome
        | .guid => .ok (isGuid (Text.trim value))
        | .bool =>
            .ok (Text.sameIgnoringCase value "true" || Text.sameIgnoringCase value "false")
        | _ => .ok false

/-- A macro of one type can be compared with a value of another. -/
def variableCastsTo (target : DataType) : DataType → Bool
  | .unknown => true
  | .date => target == .date || target == .string
  | .numeric => target == .numeric || target == .string
  | other => other == target

mutual

/-- The expression can be compared with a value of the type. -/
def castsTo (dates : DateStyle) (target : DataType) : Expr → Except Error Bool
  | .string _ value => if target = .unknown then .ok true else stringCastsTo dates value target
  | .number _ _ => .ok (target == .unknown || target == .numeric || target == .string)
  | .boolean _ _ | .truth _ _ => .ok (target == .unknown || target == .bool || target == .string)
  | .var _ v => .ok (target == .unknown || variableCastsTo target v.type)
  | .arithmetic _ _ _ _ type => .ok (target == .unknown || type == target)
  | .list _ items => if target = .unknown then .ok true else allCastTo dates target items
  | .field _ f => .ok (target == .unknown || f.type == target)
  | _ => .ok (target == .unknown)

/-- The items are tried in turn up to the first that does not fit. -/
def allCastTo (dates : DateStyle) (target : DataType) : List Expr → Except Error Bool
  | [] => .ok true
  | e :: es => do
      if ← e.castsTo dates target then allCastTo dates target es else return false

end

end Expr

end TrackerQuery

import TrackerQuery.Error
import TrackerQuery.Expr

/-!
# Queries

A query selects columns from a table, under optional clauses that come in any
order: a filter, a grouping, an ordering, a point in time and, for links
between work items, the modes that say which links count.
-/

namespace TrackerQuery

/-- What a query ranges over. -/
inductive QueryMode where
  | unknown
  | workItems
  | linksMustContain
  | linksMayContain
  | linksDoesNotContain
  | linksRecursive
  deriving DecidableEq, Repr, Inhabited

namespace QueryMode

def render : QueryMode → String
  | .unknown => "Unknown"
  | .workItems => "WorkItems"
  | .linksMustContain => "LinksMustContain"
  | .linksMayContain => "LinksMayContain"
  | .linksDoesNotContain => "LinksDoesNotContain"
  | .linksRecursive => "LinksRecursive"

/-- The query ranges over links between work items. -/
def isLinkQuery : QueryMode → Bool
  | .unknown | .workItems => false
  | _ => true

def workItemTables : List String :=
  ["issue", "issues", "workitem", "WorkItems"]

def linkTables : List String :=
  ["links", "WorkItemLinks"]

/-- The mode that the name of a table implies. -/
def ofTable (name : String) : QueryMode :=
  if workItemTables.any (Text.sameIgnoringCase · name) then .workItems
  else if linkTables.any (Text.sameIgnoringCase · name) then .linksMustContain
  else .unknown

end QueryMode

/-- The table of the `from` clause. -/
structure TableRef where
  name : String
  /-- The mode of the query, once resolved. -/
  resolved : Option QueryMode := none
  span : Span := {}
  deriving DecidableEq, Repr, Inhabited

def TableRef.mode (table : TableRef) : QueryMode :=
  table.resolved.getD .unknown

inductive FieldListKind where
  | select
  | group
  | order
  deriving DecidableEq, Repr, Inhabited

structure FieldList where
  kind : FieldListKind
  fields : List FieldRef
  span : Span
  deriving DecidableEq, Repr, Inhabited

/-- One keyword of a `mode` clause. -/
structure ModeItem where
  name : String
  span : Span
  deriving DecidableEq, Repr, Inhabited

structure ModeList where
  items : List ModeItem
  span : Span
  deriving DecidableEq, Repr, Inhabited

/-- Which of the four mode keywords a clause names. -/
structure ModeFlags where
  mustContain : Bool := false
  mayContain : Bool := false
  doesNotContain : Bool := false
  recursive : Bool := false
  deriving DecidableEq, Repr, Inhabited

namespace ModeFlags

def add? (flags : ModeFlags) (keyword : String) : Option ModeFlags :=
  match Text.asciiLowercase keyword with
  | "mustcontain" => some { flags with mustContain := true }
  | "maycontain" => some { flags with mayContain := true }
  | "doesnotcontain" => some { flags with doesNotContain := true }
  | "recursive" => some { flags with recursive := true }
  | _ => none

/-- `MustContain` is implied and may accompany `Recursive`; no other two
keywords go together. -/
def mode : ModeFlags → QueryMode
  | ⟨_, false, false, false⟩ => .linksMustContain
  | ⟨false, true, false, false⟩ => .linksMayContain
  | ⟨false, false, true, false⟩ => .linksDoesNotContain
  | ⟨_, false, false, true⟩ => .linksRecursive
  | _ => .unknown

end ModeFlags

/-- The mode of a table under the keywords of a `mode` clause, which only a
table of links may have. -/
def QueryMode.refined (table : String) (modes : ModeList) : Except Error QueryMode := do
  Error.ensure (QueryMode.ofTable table).isLinkQuery (.located .modeOnWorkItems modes.span)
  match modes.items.foldlM (fun flags item => ModeFlags.add? flags item.name) {} with
  | some flags => return flags.mode
  | none => return .unknown

structure Select where
  /-- The columns; `none` is `*`. -/
  columns : Option FieldList := none
  table : Option TableRef := none
  filter : Option Expr := none
  grouping : Option FieldList := none
  ordering : Option FieldList := none
  asOf : Option Expr := none
  modes : Option ModeList := none
  span : Span := {}
  deriving BEq, Repr, Inhabited

namespace Select

def mode (query : Select) : QueryMode :=
  (query.table.map TableRef.mode).getD .unknown

def isLinkQuery (query : Select) : Bool :=
  query.mode.isLinkQuery

end Select

end TrackerQuery

import TrackerQuery.Expr.Bind

/-!
# Resolving queries

The table comes first, since it decides what fields and qualifiers mean; then
the clauses in the order in which they are reported.  The macros left to the
server are gathered on the way.
-/

namespace TrackerQuery

open Error (ensure)

/-- A step of resolving a query, which may add to the macros left to the server
so far. -/
abbrev Resolving := StateT (List String) (Except Error)

/-- The value of an attempt that was not stopped, with its macros noted. -/
def Attempt.resolve {α : Type} (a : Attempt α) : Resolving α := do
  let value ← a.toExcept
  modify (· ++ a.macros)
  return value

def TableRef.bind (schema : Schema) (table : TableRef) : Except Error TableRef := do
  match ← schema.findTable table.name with
  | some mode => return { table with resolved := some mode }
  | none => .error (.located .tableDoesNotExist table.span)

/-- The table under the keywords of a `mode` clause. -/
def TableRef.refine (table : TableRef) (modes : ModeList) : Except Error TableRef := do
  let mode ← QueryMode.refined table.name modes
  ensure (mode != .unknown) (.located .unknownMode modes.span)
  return { table with resolved := some mode }

def FieldList.bind (schema : Schema) (scope : Scope) (list : FieldList) :
    Except Error FieldList := do
  let fields ← (Attempt.list list.fields (FieldRef.bind schema scope)).toExcept
  let bound := { list with fields }
  schema.verifyFields bound
  return bound

namespace Select

/-- Applies `f` to a clause that is there. -/
def onClause {α β : Type} (clause : Option α) (f : α → Except Error β) :
    Except Error (Option β) :=
  match clause with
  | some value => (f value).map some
  | none => .ok none

def resolveFilter (schema : Schema) (scope : Scope) (filter : Expr) : Resolving Expr := do
  let bound ← (filter.bind schema scope).resolve
  Expr.ensureBoolean bound
  return bound

def resolveMoment (schema : Schema) (scope : Scope) (moment : Expr) : Resolving Expr := do
  let bound ← (moment.bind schema scope).resolve
  ensure (← bound.castsTo schema.dates .date) (.located .invalidDate bound.span)
  return bound

def bindTable (schema : Schema) (query : Select) : Except Error TableRef := do
  match query.table with
  | none => .error (.located .expectingTableName query.span)
  | some table =>
      let table ← table.bind schema
      match query.modes with
      | some modes => table.refine modes
      | none => return table

/-- Resolves a whole query. -/
def resolve (schema : Schema) (query : Select) : Resolving Select := do
  let table ← query.bindTable schema
  let scope : Scope := { table := some table }
  let columns ← onClause query.columns (FieldList.bind schema scope)
  let filter ← query.filter.mapM (resolveFilter schema scope)
  let grouping ← onClause query.grouping (FieldList.bind schema scope)
  let ordering ← onClause query.ordering (FieldList.bind schema scope)
  let asOf ← query.asOf.mapM (resolveMoment schema scope)
  let bound := { query with table := some table, columns, filter, grouping, ordering, asOf }
  schema.verifyQuery bound
  return bound

/-- The query as it is resolved. -/
def bind (schema : Schema) (query : Select) : Except Error Select :=
  (query.resolve schema).run' []

end Select

end TrackerQuery

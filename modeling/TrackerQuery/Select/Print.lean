import TrackerQuery.Expr.Print
import TrackerQuery.Select

/-!
# Printing queries

The clauses of a query print in a fixed order, whatever order they were
written in.
-/

namespace TrackerQuery

def TableRef.render (table : TableRef) : String :=
  renderName table.name

def FieldList.render (list : FieldList) : String :=
  ", ".intercalate (list.fields.map FieldRef.render)

def ModeList.render (modes : ModeList) : String :=
  let names := ", ".intercalate (modes.items.map fun item => renderName item.name)
  s!"({names})"

namespace Select

/-- The text of a clause, nothing if the query does not have it. -/
def renderClause {α : Type} (keyword : String) (render : α → String) : Option α → String
  | some clause => s!" {keyword} {render clause}"
  | none => ""

def render (query : Select) : String :=
  let columns := match query.columns with
    | some list => list.render
    | none => "*"
  s!"select {columns}"
    ++ renderClause "from" TableRef.render query.table
    ++ renderClause "where" Expr.render query.filter
    ++ renderClause "group by" FieldList.render query.grouping
    ++ renderClause "order by" FieldList.render query.ordering
    ++ renderClause "asof" Expr.render query.asOf
    ++ renderClause "mode" ModeList.render query.modes

end Select

end TrackerQuery

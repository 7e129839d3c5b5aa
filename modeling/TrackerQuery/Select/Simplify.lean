import TrackerQuery.Select.Bind
import TrackerQuery.Simplify

/-!
# Simplifying queries

The filter and the point in time are simplified; every other clause stays.
-/

namespace TrackerQuery.Select

def simplifyWith (reduce : Reduction) (query : Select) : Except Error Select := do
  let scope : Scope := { table := query.table }
  let filter ← onClause query.filter (reduce scope)
  let asOf ← onClause query.asOf (reduce scope)
  return { query with filter, asOf }

end TrackerQuery.Select

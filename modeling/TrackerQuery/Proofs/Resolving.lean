import TrackerQuery.Proofs.Outcome
import TrackerQuery.Select.Bind

/-!
# Resolving a query, clause by clause

Resolving goes through the clauses one after the other.  What comes of them does
not depend on the macros noted before, and the macros noted on the way are those
of the filter followed by those of the moment.
-/

namespace TrackerQuery

open Error (ensure)

theorem Attempt.run_resolve {α : Type} (a : Attempt α) (noted : List String) :
    a.resolve.run noted = do return (← a.toExcept, noted ++ a.macros) := by
  simp [Attempt.resolve]

namespace Select

def bindFilter (schema : Schema) (scope : Scope) (filter : Expr) : Except Error Expr := do
  let bound ← (filter.bind schema scope).toExcept
  Expr.ensureBoolean bound
  return bound

def bindMoment (schema : Schema) (scope : Scope) (moment : Expr) : Except Error Expr := do
  let bound ← (moment.bind schema scope).toExcept
  ensure (← bound.castsTo schema.dates .date) (.located .invalidDate bound.span)
  return bound

theorem run_resolveFilter (schema : Schema) (scope : Scope) (filter : Expr)
    (noted : List String) :
    (resolveFilter schema scope filter).run noted = do
      return (← bindFilter schema scope filter, noted ++ (filter.bind schema scope).macros) := by
  simp [resolveFilter, bindFilter, Attempt.run_resolve]

theorem run_resolveMoment (schema : Schema) (scope : Scope) (moment : Expr)
    (noted : List String) :
    (resolveMoment schema scope moment).run noted = do
      return (← bindMoment schema scope moment, noted ++ (moment.bind schema scope).macros) := by
  simp [resolveMoment, bindMoment, Attempt.run_resolve]

def clauseMacros (schema : Schema) (scope : Scope) (clause : Option Expr) : List String :=
  clause.elim [] fun e => (e.bind schema scope).macros

/-- A clause resolved by `f` which notes the macros of that clause. -/
theorem run_mapM_resolve {schema : Schema} {scope : Scope} {step : Expr → Resolving Expr}
    {f : Expr → Except Error Expr}
    (hstep : ∀ e noted, (step e).run noted = do
      return (← f e, noted ++ (e.bind schema scope).macros))
    (clause : Option Expr) (noted : List String) :
    (clause.mapM step).run noted = do
      return (← onClause clause f, noted ++ clauseMacros schema scope clause) := by
  cases clause with
  | none =>
      show Except.ok (none, noted) = Except.ok (none, noted ++ [])
      rw [List.append_nil]
  | some e =>
      simp only [Option.mapM_some, StateT.run_map, hstep, onClause, clauseMacros, Option.elim]
      cases f e with
      | error e => rfl
      | ok value => rfl

/-- The clauses are resolved in turn. -/
theorem bind_eq (schema : Schema) (query : Select) :
    query.bind schema = do
      let table ← query.bindTable schema
      let scope : Scope := { table := some table }
      let columns ← onClause query.columns (FieldList.bind schema scope)
      let filter ← onClause query.filter (bindFilter schema scope)
      let grouping ← onClause query.grouping (FieldList.bind schema scope)
      let ordering ← onClause query.ordering (FieldList.bind schema scope)
      let asOf ← onClause query.asOf (bindMoment schema scope)
      let bound := { query with table := some table, columns, filter, grouping, ordering, asOf }
      schema.verifyQuery bound
      return bound := by
  unfold bind resolve
  simp [StateT.run'_eq, run_mapM_resolve (run_resolveFilter schema _),
    run_mapM_resolve (run_resolveMoment schema _)]

/-- The query is resolved to `bound`, each clause in the scope of the table. -/
structure Binds (schema : Schema) (query bound : Select) (table : TableRef) : Prop where
  bindTable : query.bindTable schema = .ok table
  columns :
    onClause query.columns (FieldList.bind schema { table := some table }) = .ok bound.columns
  filter : onClause query.filter (bindFilter schema { table := some table }) = .ok bound.filter
  grouping :
    onClause query.grouping (FieldList.bind schema { table := some table }) = .ok bound.grouping
  ordering :
    onClause query.ordering (FieldList.bind schema { table := some table }) = .ok bound.ordering
  asOf : onClause query.asOf (bindMoment schema { table := some table }) = .ok bound.asOf
  rules : schema.verifyQuery bound = .ok ()
  found : bound.table = some table
  modes : bound.modes = query.modes

theorem exists_binds {schema : Schema} {query bound : Select}
    (hbind : query.bind schema = .ok bound) : ∃ table, Binds schema query bound table := by
  rw [bind_eq] at hbind
  obtain ⟨table, htable, hbind⟩ := bind_eq_ok_iff.mp hbind
  obtain ⟨columns, hcolumns, hbind⟩ := bind_eq_ok_iff.mp hbind
  obtain ⟨filter, hfilter, hbind⟩ := bind_eq_ok_iff.mp hbind
  obtain ⟨grouping, hgrouping, hbind⟩ := bind_eq_ok_iff.mp hbind
  obtain ⟨ordering, hordering, hbind⟩ := bind_eq_ok_iff.mp hbind
  obtain ⟨asOf, hasOf, hbind⟩ := bind_eq_ok_iff.mp hbind
  obtain ⟨⟨⟩, hrules, hbind⟩ := bind_eq_ok_iff.mp hbind
  cases hbind
  exact ⟨table, htable, hcolumns, hfilter, hgrouping, hordering, hasOf, hrules, rfl, rfl⟩

/-- Resolving notes the macros of the filter and then those of the moment. -/
theorem run_resolve (schema : Schema) (query : Select) (noted : List String) :
    (query.resolve schema).run noted = do
      let bound ← query.bind schema
      let scope : Scope := { table := bound.table }
      return (bound, noted ++ clauseMacros schema scope query.filter ++
        clauseMacros schema scope query.asOf) := by
  rw [bind_eq]
  unfold resolve
  simp [run_mapM_resolve (run_resolveFilter schema _), run_mapM_resolve (run_resolveMoment schema _)]

end Select

end TrackerQuery

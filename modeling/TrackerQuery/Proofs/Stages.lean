import TrackerQuery.Compile
import TrackerQuery.Proofs.Resolved
import TrackerQuery.Proofs.Resolving

/-!
# The stages of a query

A query that has come through reading, resolving and simplifying has come
through each of them, clause by clause.
-/

namespace TrackerQuery

namespace Select

theorem onClause_eq_ok_iff {α β : Type} {clause : Option α} {f : α → Except Error β}
    {value : β} :
    onClause clause f = .ok (some value) ↔ ∃ a, clause = some a ∧ f a = .ok value := by
  cases clause with
  | none => simp [onClause]
  | some a => simp [onClause, map_eq_ok_iff]

/-- A resolved filter comes from the filter of the query, in the scope of its table. -/
theorem written_of_bind_filter {schema : Schema} {query bound : Select} {filter : Expr}
    (hbind : query.bind schema = .ok bound) (hfilter : bound.filter = some filter) :
    ∃ written table, query.filter = some written ∧ bound.table = some table ∧
      (written.bind schema { table := some table }).toExcept = .ok filter ∧
      Expr.ensureBoolean filter = .ok () := by
  obtain ⟨table, hbinds⟩ := exists_binds hbind
  obtain ⟨written, hwritten, hbound⟩ := onClause_eq_ok_iff.mp (hfilter ▸ hbinds.filter)
  obtain ⟨resolved, hresolved, hbound⟩ := bind_eq_ok_iff.mp hbound
  obtain ⟨⟨⟩, hboolean, hbound⟩ := bind_eq_ok_iff.mp hbound
  cases hbound
  exact ⟨written, table, hwritten, hbinds.found, hresolved, hboolean⟩

/-- A resolved filter was resolved in the scope of the table of its query. -/
theorem bind_filter {schema : Schema} {query bound : Select} {filter : Expr}
    (hbind : query.bind schema = .ok bound) (hfilter : bound.filter = some filter) :
    ∃ table, bound.table = some table ∧ filter.Resolved schema { table := some table } := by
  obtain ⟨written, table, -, htable, hresolved, -⟩ := written_of_bind_filter hbind hfilter
  exact ⟨table, htable, Expr.resolved_of_bind hresolved⟩

/-- A simplified filter is what the filter of the query was simplified to. -/
theorem simplifyWith_filter {reduce : Reduction} {query simplified : Select} {filter : Expr}
    (hsimplify : query.simplifyWith reduce = .ok simplified)
    (hfilter : simplified.filter = some filter) :
    ∃ bound, query.filter = some bound ∧ reduce { table := query.table } bound = .ok filter := by
  unfold simplifyWith at hsimplify
  obtain ⟨found, hfound, hsimplify⟩ := bind_eq_ok_iff.mp hsimplify
  obtain ⟨asOf, -, hsimplify⟩ := bind_eq_ok_iff.mp hsimplify
  cases hsimplify
  change found = some filter at hfilter
  rwa [hfilter, onClause_eq_ok_iff] at hfound

end Select

namespace Session

/-- The filter of an optimized query was resolved and then simplified. -/
theorem optimize_filter {session : Session} {text : String} {query : Select} {filter : Expr}
    (hoptimize : session.optimize text = .ok query) (hfilter : query.filter = some filter) :
    ∃ scope bound, bound.Resolved session.schema scope ∧
      session.simplify scope bound = .ok filter := by
  unfold optimize at hoptimize
  obtain ⟨parsed, -, hoptimize⟩ := bind_eq_ok_iff.mp hoptimize
  obtain ⟨resolved, hresolved, hsimplified⟩ := bind_eq_ok_iff.mp hoptimize
  obtain ⟨bound, hbound, hsimplify⟩ := Select.simplifyWith_filter hsimplified hfilter
  obtain ⟨table, htable, hfound⟩ := Select.bind_filter hresolved hbound
  rw [htable] at hsimplify
  exact ⟨{ table := some table }, bound, hfound, hsimplify⟩

/-- Where no macros are left to the server, the document is made from the optimized query. -/
theorem compile_eq {session : Session} (hmacros : session.settings.serverSideMacros = false)
    (text : String) :
    session.compile text = (do
      let query ← session.optimize text
      let document ← session.document query
      return { query, document
               displayFields := session.displayFields query
               sortFields := session.sortFields query }) := by
  unfold compile
  rw [if_neg (by simp [hmacros])]
  rfl

end Session

theorem Compiler.optimize_eq_ok {compiler : Compiler} {text : String} {session : Session}
    {query : Select} (hsession : compiler.session = .ok session)
    (hoptimize : compiler.optimize text = .ok query) : session.optimize text = .ok query := by
  rw [optimize, hsession] at hoptimize
  exact hoptimize

theorem Compiler.session_eq_ok {compiler : Compiler} {session : Session}
    (hsession : compiler.session = .ok session) :
    session.catalog = compiler.catalog ∧ session.settings = compiler.settings := by
  obtain ⟨zone, -, hsession⟩ := bind_eq_ok_iff.mp hsession
  cases hsession
  exact ⟨rfl, rfl⟩

end TrackerQuery

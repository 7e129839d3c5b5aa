import TrackerQuery.Proofs.Stages

/-!
# Resolving again

What resolving leaves behind is a fixed point: names find the same meaning, and
a canonical qualifier is canonical for itself.  So a query that was resolved can
be resolved again, and nothing in it changes.
-/

namespace TrackerQuery

/-- The canonical qualifier of a field is its own canonical qualifier. -/
def Schema.Canonical (schema : Schema) : Prop :=
  ∀ (field : FieldRef) (table : Option TableRef) (qualifier : Option String),
    schema.qualifier field table = .ok qualifier →
      schema.qualifier { field with qualifier } table = .ok qualifier

variable {schema : Schema} {scope : Scope}

/-- A field is resolved just if resolving leaves it as it is. -/
theorem FieldRef.resolved_iff (hcanonical : schema.Canonical) {field : FieldRef} :
    field.Resolved schema scope ↔ (field.bind schema scope).toExcept = .ok field := by
  refine ⟨fun hresolved => ?_, FieldRef.resolved_of_bind⟩
  obtain ⟨⟨id, hname, hid, htype⟩, written, hqualifier⟩ := hresolved
  have hfound : { field with id := some id, type := schema.fieldType id } = field := by
    rw [← hid, ← htype]
  have hown : schema.qualifier field scope.table = .ok field.qualifier :=
    hcanonical { field with qualifier := written } _ _ hqualifier
  simp only [FieldRef.bind, hname, hfound, hown]
  rfl

namespace Expr

theorem bindVariable_of_partsResolved {m : Mark} {v : Variable}
    (hresolved : (Expr.var m v).PartsResolved schema scope) :
    (bindVariable schema m v).toExcept = .ok (.var m v) := by
  obtain ⟨found, hname, htarget, htype⟩ := hresolved
  have hfound : { v with target := some found.target,
                         type := schema.variableType found.target } = v := by
    rw [← htarget, ← htype]
  simp only [bindVariable, hname, hfound]
  rfl

theorem bindAll_of_allResolved {test : Expr → Except Error Unit} {es : List Expr}
    (ih : ∀ e ∈ es, ∀ scope, e.PartsResolved schema scope →
      (bindParts schema scope e).toExcept = .ok e)
    (hresolved : AllResolved schema scope test es) :
    (bindAll schema scope test es).toExcept = .ok es := by
  induction es with
  | nil => rfl
  | cons e es ihes =>
      obtain ⟨⟨⟨hparts, hverify⟩, htest⟩, hothers⟩ := hresolved
      have hbound := Attempt.check_eq_ok_iff.mpr ⟨ih e (by simp) scope hparts, hverify⟩
      rw [bindAll]
      refine Attempt.andThen_eq_ok_iff.mpr ⟨e, Attempt.check_eq_ok_iff.mpr ⟨hbound, htest⟩, ?_⟩
      apply Attempt.map_eq_ok_iff.mpr
      exact ⟨es, ihes (fun e he => ih e (by simp [he])) hothers, rfl⟩

/-- Resolved parts resolve to themselves. -/
theorem bindParts_of_partsResolved (hcanonical : schema.Canonical) (e : Expr) (scope : Scope)
    (hresolved : e.PartsResolved schema scope) : (bindParts schema scope e).toExcept = .ok e := by
  induction e generalizing scope with
  | string m value | number m value | boolean m value | truth m value => rfl
  | var m v => exact bindVariable_of_partsResolved hresolved
  | field m f =>
      apply Attempt.map_eq_ok_iff.mpr
      exact ⟨f, (FieldRef.resolved_iff hcanonical).mp hresolved, rfl⟩
  | list m items ih =>
      apply Attempt.map_eq_ok_iff.mpr
      exact ⟨items, bindAll_of_allResolved ih hresolved, rfl⟩
  | condition m op left right ih =>
      obtain ⟨hleft, ⟨hparts, hverify⟩, hkind⟩ := hresolved
      have hright := Attempt.check_eq_ok_iff.mpr ⟨ih _ hparts, hverify⟩
      rw [bindParts]
      refine Attempt.andThen_eq_ok_iff.mpr ⟨left, (FieldRef.resolved_iff hcanonical).mp hleft, ?_⟩
      apply Attempt.map_eq_ok_iff.mpr
      exact ⟨right, Attempt.check_eq_ok_iff.mpr ⟨hright, hkind⟩, rfl⟩
  | arithmetic m op left right type ihleft ihright =>
      obtain ⟨⟨hleft, hverifyLeft⟩, ⟨hright, hverifyRight⟩, hconstLeft, hconstRight, rfl⟩ :=
        hresolved
      rw [bindParts]
      refine Attempt.andThen_eq_ok_iff.mpr
        ⟨left, Attempt.check_eq_ok_iff.mpr ⟨ihleft scope hleft, hverifyLeft⟩, ?_⟩
      refine Attempt.andThen_eq_ok_iff.mpr
        ⟨right, Attempt.check_eq_ok_iff.mpr ⟨ihright scope hright, hverifyRight⟩, ?_⟩
      simp only [hconstLeft, hconstRight]
      rfl
  | junction m connective operands ih =>
      apply Attempt.map_eq_ok_iff.mpr
      exact ⟨operands, bindAll_of_allResolved ih hresolved, rfl⟩
  | not m operand ih | ever m operand ih =>
      obtain ⟨⟨hparts, hverify⟩, hboolean⟩ := hresolved
      have hbound := Attempt.check_eq_ok_iff.mpr ⟨ih scope hparts, hverify⟩
      apply Attempt.map_eq_ok_iff.mpr
      exact ⟨operand, Attempt.check_eq_ok_iff.mpr ⟨hbound, hboolean⟩, rfl⟩

/-- An expression is resolved just if resolving leaves it as it is. -/
theorem resolved_iff (hcanonical : schema.Canonical) {e : Expr} :
    e.Resolved schema scope ↔ (e.bind schema scope).toExcept = .ok e := by
  refine ⟨fun hresolved => ?_, resolved_of_bind⟩
  apply Attempt.check_eq_ok_iff.mpr
  exact ⟨bindParts_of_partsResolved hcanonical e scope hresolved.1, hresolved.2⟩

end Expr

/-! ## Queries -/

/-- What resolving leaves of a list of fields. -/
structure FieldList.Resolved (schema : Schema) (scope : Scope) (list : FieldList) : Prop where
  fields : ∀ field ∈ list.fields, field.Resolved schema scope
  rules : schema.verifyFields list = .ok ()

theorem FieldRef.resolved_of_list {fields bound : List FieldRef}
    (hbind : (Attempt.list fields (FieldRef.bind schema scope)).toExcept = .ok bound) :
    ∀ field ∈ bound, field.Resolved schema scope := by
  induction fields generalizing bound with
  | nil =>
      cases hbind
      exact List.forall_mem_nil _
  | cons field fields ih =>
      obtain ⟨first, hfirst, hbind⟩ := Attempt.andThen_eq_ok_iff.mp hbind
      obtain ⟨others, hothers, rfl⟩ := Attempt.map_eq_ok_iff.mp hbind
      exact List.forall_mem_cons.mpr ⟨FieldRef.resolved_of_bind hfirst, ih hothers⟩

theorem FieldRef.list_of_resolved (hcanonical : schema.Canonical) {fields : List FieldRef}
    (hresolved : ∀ field ∈ fields, field.Resolved schema scope) :
    (Attempt.list fields (FieldRef.bind schema scope)).toExcept = .ok fields := by
  induction fields with
  | nil => rfl
  | cons field fields ih =>
      obtain ⟨hfirst, hothers⟩ := List.forall_mem_cons.mp hresolved
      apply Attempt.andThen_eq_ok_iff.mpr
      refine ⟨field, (FieldRef.resolved_iff hcanonical).mp hfirst, ?_⟩
      exact Attempt.map_eq_ok_iff.mpr ⟨fields, ih hothers, rfl⟩

theorem FieldList.resolved_of_bind {list bound : FieldList}
    (hbind : list.bind schema scope = .ok bound) : bound.Resolved schema scope := by
  obtain ⟨fields, hfields, hbind⟩ := bind_eq_ok_iff.mp hbind
  obtain ⟨⟨⟩, hrules, hbind⟩ := bind_eq_ok_iff.mp hbind
  cases hbind
  exact ⟨FieldRef.resolved_of_list hfields, hrules⟩

theorem FieldList.bind_of_resolved (hcanonical : schema.Canonical) {list : FieldList}
    (hresolved : list.Resolved schema scope) : list.bind schema scope = .ok list := by
  apply bind_eq_ok_iff.mpr
  refine ⟨list.fields, FieldRef.list_of_resolved hcanonical hresolved.fields, ?_⟩
  exact bind_eq_ok_iff.mpr ⟨(), hresolved.rules, rfl⟩

theorem TableRef.bind_eq_ok_iff {table bound : TableRef} :
    table.bind schema = .ok bound ↔
      ∃ mode, schema.findTable table.name = .ok (some mode) ∧
        { table with resolved := some mode } = bound := by
  rw [TableRef.bind, TrackerQuery.bind_eq_ok_iff]
  constructor
  · rintro ⟨mode, hmode, hbound⟩
    cases mode with
    | none => cases hbound
    | some mode => exact ⟨mode, hmode, pure_eq_ok_iff.mp hbound⟩
  · rintro ⟨mode, hmode, hbound⟩
    exact ⟨some mode, hmode, pure_eq_ok_iff.mpr hbound⟩

theorem TableRef.refine_eq_ok_iff {table refined : TableRef} {modes : ModeList} :
    table.refine modes = .ok refined ↔
      ∃ mode, (QueryMode.refined table.name modes = .ok mode ∧ mode ≠ .unknown) ∧
        { table with resolved := some mode } = refined := by
  simp only [TableRef.refine, TrackerQuery.bind_eq_ok_iff, pure_eq_ok_iff,
    Error.ensure_eq_ok_iff, bne_iff_ne]
  constructor
  · rintro ⟨mode, hmode, -, hknown, hrefined⟩
    exact ⟨mode, ⟨hmode, hknown⟩, hrefined⟩
  · rintro ⟨mode, ⟨hmode, hknown⟩, hrefined⟩
    exact ⟨mode, hmode, (), hknown, hrefined⟩

namespace Select

/-- What resolving leaves of a query. -/
structure Resolved (schema : Schema) (query : Select) : Prop where
  table : ∃ table, query.table = some table ∧ query.bindTable schema = .ok table
  columns : ∀ list, query.columns = some list →
    list.Resolved schema { table := query.table }
  filter : ∀ e, query.filter = some e →
    e.Resolved schema { table := query.table } ∧ Expr.ensureBoolean e = .ok ()
  grouping : ∀ list, query.grouping = some list →
    list.Resolved schema { table := query.table }
  ordering : ∀ list, query.ordering = some list →
    list.Resolved schema { table := query.table }
  asOf : ∀ e, query.asOf = some e →
    e.Resolved schema { table := query.table } ∧ e.castsTo schema.dates .date = .ok true
  rules : schema.verifyQuery query = .ok ()

theorem onClause_eq_self_iff {α : Type} {clause : Option α} {f : α → Except Error α} :
    onClause clause f = .ok clause ↔ ∀ a, clause = some a → f a = .ok a := by
  cases clause with
  | none => simp [onClause]
  | some a => simp [onClause, map_eq_ok_iff]

/-- A resolved table is found again under the name it kept. -/
theorem bindTable_again {query : Select} {table : TableRef}
    (hbind : query.bindTable schema = .ok table) (bound : Select)
    (htable : bound.table = some table) (hmodes : bound.modes = query.modes) :
    bound.bindTable schema = .ok table := by
  unfold bindTable at hbind ⊢
  rw [htable, hmodes]
  split at hbind
  · cases hbind
  · rename_i written _
    obtain ⟨found, hfound, hbind⟩ := bind_eq_ok_iff.mp hbind
    obtain ⟨mode, hmode, rfl⟩ := TableRef.bind_eq_ok_iff.mp hfound
    apply bind_eq_ok_iff.mpr
    cases hkeywords : query.modes with
    | none =>
        simp only [hkeywords] at hbind
        cases hbind
        exact ⟨_, TableRef.bind_eq_ok_iff.mpr ⟨mode, hmode, rfl⟩, rfl⟩
    | some modes =>
        simp only [hkeywords] at hbind
        obtain ⟨refined, hrefined, rfl⟩ := TableRef.refine_eq_ok_iff.mp hbind
        refine ⟨_, TableRef.bind_eq_ok_iff.mpr ⟨mode, hmode, rfl⟩, ?_⟩
        exact TableRef.refine_eq_ok_iff.mpr ⟨refined, hrefined, rfl⟩

/-- What resolving a query leaves behind. -/
theorem resolved_of_bind {query bound : Select} (hbind : query.bind schema = .ok bound) :
    bound.Resolved schema := by
  obtain ⟨table, hbinds⟩ := exists_binds hbind
  have hlists : ∀ {clause : Option FieldList} {list : FieldList},
      onClause clause (FieldList.bind schema { table := some table }) = .ok (some list) →
        list.Resolved schema { table := bound.table } := by
    intro clause list hclause
    obtain ⟨written, -, hlist⟩ := onClause_eq_ok_iff.mp hclause
    exact hbinds.found ▸ FieldList.resolved_of_bind hlist
  constructor
  · exact ⟨table, hbinds.found, bindTable_again hbinds.bindTable _ hbinds.found hbinds.modes⟩
  · intro list hlist
    exact hlists (hlist ▸ hbinds.columns)
  · intro e he
    obtain ⟨written, -, hbound⟩ := onClause_eq_ok_iff.mp (he ▸ hbinds.filter)
    obtain ⟨found, hfound, hbound⟩ := bind_eq_ok_iff.mp hbound
    obtain ⟨⟨⟩, hboolean, hbound⟩ := bind_eq_ok_iff.mp hbound
    cases hbound
    exact ⟨hbinds.found ▸ Expr.resolved_of_bind hfound, hboolean⟩
  · intro list hlist
    exact hlists (hlist ▸ hbinds.grouping)
  · intro list hlist
    exact hlists (hlist ▸ hbinds.ordering)
  · intro e he
    obtain ⟨written, -, hbound⟩ := onClause_eq_ok_iff.mp (he ▸ hbinds.asOf)
    obtain ⟨found, hfound, hbound⟩ := bind_eq_ok_iff.mp hbound
    obtain ⟨casts, hcasts, hbound⟩ := bind_eq_ok_iff.mp hbound
    obtain ⟨⟨⟩, hdate, hbound⟩ := bind_eq_ok_iff.mp hbound
    cases hbound
    exact ⟨hbinds.found ▸ Expr.resolved_of_bind hfound, Error.ensure_eq_ok_iff.mp hdate ▸ hcasts⟩
  · exact hbinds.rules

/-- A query is resolved just if resolving leaves it as it is. -/
theorem resolved_iff (hcanonical : schema.Canonical) {query : Select} :
    query.Resolved schema ↔ query.bind schema = .ok query := by
  refine ⟨fun hresolved => ?_, resolved_of_bind⟩
  obtain ⟨table, htable, hbindTable⟩ := hresolved.table
  have hlists : ∀ {clause : Option FieldList},
      (∀ list, clause = some list → list.Resolved schema { table := query.table }) →
        onClause clause (FieldList.bind schema { table := some table }) = .ok clause := by
    intro clause hclause
    apply onClause_eq_self_iff.mpr
    intro list hlist
    exact FieldList.bind_of_resolved hcanonical (htable ▸ hclause list hlist)
  have hfilter : onClause query.filter (bindFilter schema { table := some table }) =
      .ok query.filter := by
    apply onClause_eq_self_iff.mpr
    intro e he
    obtain ⟨hbound, hboolean⟩ := hresolved.filter e he
    apply bind_eq_ok_iff.mpr
    refine ⟨e, htable ▸ (Expr.resolved_iff hcanonical).mp hbound, ?_⟩
    exact bind_eq_ok_iff.mpr ⟨(), hboolean, rfl⟩
  have hasOf : onClause query.asOf (bindMoment schema { table := some table }) =
      .ok query.asOf := by
    apply onClause_eq_self_iff.mpr
    intro e he
    obtain ⟨hbound, hdate⟩ := hresolved.asOf e he
    apply bind_eq_ok_iff.mpr
    refine ⟨e, htable ▸ (Expr.resolved_iff hcanonical).mp hbound, ?_⟩
    exact bind_eq_ok_iff.mpr ⟨true, hdate, rfl⟩
  have hsame : { query with table := some table } = query := by
    rw [← htable]
  rw [bind_eq]
  refine bind_eq_ok_iff.mpr ⟨table, hbindTable, ?_⟩
  refine bind_eq_ok_iff.mpr ⟨query.columns, hlists hresolved.columns, ?_⟩
  refine bind_eq_ok_iff.mpr ⟨query.filter, hfilter, ?_⟩
  refine bind_eq_ok_iff.mpr ⟨query.grouping, hlists hresolved.grouping, ?_⟩
  refine bind_eq_ok_iff.mpr ⟨query.ordering, hlists hresolved.ordering, ?_⟩
  refine bind_eq_ok_iff.mpr ⟨query.asOf, hasOf, ?_⟩
  refine bind_eq_ok_iff.mpr ⟨(), ?_, ?_⟩
  · rw [hsame]
    exact hresolved.rules
  · exact congrArg Except.ok hsame

end Select

end TrackerQuery

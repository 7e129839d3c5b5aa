import TrackerQuery.Proofs.Filed
import TrackerQuery.Proofs.RoundTrip
import TrackerQuery.Proofs.SimplifiedClause

/-!
# Bound queries

What holds of every query that has been resolved, before and after it is
simplified: its table has a mode, its fields and macros stand for something, and
its filter is a clause.  A column or a sort field without a definition would be
dropped without an error; in a bound query there is none.
-/

namespace TrackerQuery

namespace Select

def listed (list : Option FieldList) : List FieldRef :=
  (list.map FieldList.fields).getD []

def fieldRefs (query : Select) : List FieldRef :=
  listed query.columns ++ listed query.grouping ++ listed query.ordering ++
    (query.filter.map Expr.fieldRefs).getD [] ++ (query.asOf.map Expr.fieldRefs).getD []

def variableRefs (query : Select) : List Variable :=
  (query.filter.map Expr.variableRefs).getD [] ++ (query.asOf.map Expr.variableRefs).getD []

/-- Simplification changes the filter and the point in time only. -/
theorem simplifyWith_eq_ok {reduce : Reduction} {query simplified : Select}
    (hsimplify : query.simplifyWith reduce = .ok simplified) :
    ∃ filter asOf, onClause query.filter (reduce { table := query.table }) = .ok filter ∧
      onClause query.asOf (reduce { table := query.table }) = .ok asOf ∧
      simplified = { query with filter, asOf } := by
  obtain ⟨filter, hfilter, hsimplify⟩ := bind_eq_ok_iff.mp hsimplify
  obtain ⟨asOf, hasOf, hsimplify⟩ := bind_eq_ok_iff.mp hsimplify
  exact ⟨filter, asOf, hfilter, hasOf, (pure_eq_ok_iff.mp hsimplify).symm⟩

end Select

namespace Session

variable {session : Session} {query : Select}

/-- What holds of a resolved query, simplified or not. -/
structure Bound (session : Session) (query : Select) : Prop where
  table : ∃ table mode, query.table = some table ∧ table.resolved = some mode ∧ mode ≠ .unknown
  fields : ∀ field ∈ query.fieldRefs, session.Knows query.mode field
  variableRefs : ∀ v ∈ query.variableRefs, v.target.isSome = true
  filter : ∀ e, query.filter = some e → e.dataType = .bool

theorem mode_of_bindTable {table : TableRef}
    (hbind : query.bindTable session.schema = .ok table) :
    ∃ mode, table.resolved = some mode ∧ mode ≠ .unknown := by
  unfold Select.bindTable at hbind
  split at hbind
  · cases hbind
  · obtain ⟨found, hfound, hbind⟩ := bind_eq_ok_iff.mp hbind
    obtain ⟨mode, hmode, rfl⟩ := TableRef.bind_eq_ok_iff.mp hfound
    split at hbind
    · obtain ⟨refined, ⟨-, hknown⟩, rfl⟩ := TableRef.refine_eq_ok_iff.mp hbind
      exact ⟨refined, rfl, hknown⟩
    · cases hbind
      refine ⟨mode, rfl, ?_⟩
      change session.findTable _ = _ at hmode
      unfold findTable at hmode
      split at hmode
      · cases hmode
      · rename_i hknown
        split at hmode
        · cases hmode
        · cases hmode
          exact hknown

/-- A query is bound if the names in its clauses are resolved and its filter is a
clause. -/
theorem bound_of_names
    (htable : ∃ table, query.table = some table ∧ query.bindTable session.schema = .ok table)
    (hlists : ∀ list, query.columns = some list ∨ query.grouping = some list ∨
      query.ordering = some list → list.Resolved session.schema { table := query.table })
    (hnames : ∀ e, query.filter = some e ∨ query.asOf = some e →
      e.NamesResolved session.schema query.table)
    (hfilter : ∀ e, query.filter = some e → e.dataType = .bool) : session.Bound query := by
  have hlisted : ∀ clause, (∀ list, clause = some list →
      list.Resolved session.schema { table := query.table }) →
        ∀ field ∈ Select.listed clause, session.Knows query.mode field := by
    intro clause hclause field hfield
    cases clause with
    | none => cases hfield
    | some list => exact knows_of_resolved ((hclause list rfl).fields field hfield)
  have hmentioned : ∀ clause : Option Expr, (∀ e, clause = some e →
      e.NamesResolved session.schema query.table) →
        ∀ field ∈ (clause.map Expr.fieldRefs).getD [], session.Knows query.mode field := by
    intro clause hclause field hfield
    cases clause with
    | none => cases hfield
    | some e => exact knows_of_resolved ((hclause e rfl).fields field hfield)
  have hmacros : ∀ clause : Option Expr, (∀ e, clause = some e →
      e.NamesResolved session.schema query.table) →
        ∀ v ∈ (clause.map Expr.variableRefs).getD [], v.target.isSome = true := by
    intro clause hclause v hv
    cases clause with
    | none => cases hv
    | some e =>
        obtain ⟨target, -, htarget, -⟩ := (hclause e rfl).variableRefs v hv
        rw [htarget]
        rfl
  constructor
  · obtain ⟨table, htable, hbind⟩ := htable
    obtain ⟨mode, hmode, hknown⟩ := mode_of_bindTable hbind
    exact ⟨table, mode, htable, hmode, hknown⟩
  · simp only [Select.fieldRefs, List.forall_mem_append]
    exact ⟨⟨⟨⟨hlisted _ fun list h => hlists list (.inl h),
      hlisted _ fun list h => hlists list (.inr (.inl h))⟩,
      hlisted _ fun list h => hlists list (.inr (.inr h))⟩,
      hmentioned _ fun e h => hnames e (.inl h)⟩, hmentioned _ fun e h => hnames e (.inr h)⟩
  · simp only [Select.variableRefs, List.forall_mem_append]
    exact ⟨hmacros _ fun e h => hnames e (.inl h), hmacros _ fun e h => hnames e (.inr h)⟩
  · exact hfilter

theorem listsResolved (hresolved : query.Resolved session.schema) (list : FieldList)
    (hlist : query.columns = some list ∨ query.grouping = some list ∨
      query.ordering = some list) :
    list.Resolved session.schema { table := query.table } := by
  obtain hlist | hlist | hlist := hlist
  · exact hresolved.columns list hlist
  · exact hresolved.grouping list hlist
  · exact hresolved.ordering list hlist

theorem namesResolved_of_resolved (hresolved : query.Resolved session.schema) (e : Expr)
    (he : query.filter = some e ∨ query.asOf = some e) :
    e.NamesResolved session.schema query.table := by
  obtain he | he := he
  · exact Expr.namesResolved_of_partsResolved e _ (hresolved.filter e he).1.1
  · exact Expr.namesResolved_of_partsResolved e _ (hresolved.asOf e he).1.1

theorem bound_of_resolved (hresolved : query.Resolved session.schema) : session.Bound query := by
  apply bound_of_names hresolved.table
  · exact listsResolved hresolved
  · exact namesResolved_of_resolved hresolved
  · intro e he
    exact beq_iff_eq.mp (Error.ensure_eq_ok_iff.mp (hresolved.filter e he).2)

/-- Simplification keeps a resolved query bound. -/
theorem bound_of_simplifyQuery {simplified : Select} (hresolved : query.Resolved session.schema)
    (hsimplify : session.simplifyQuery query = .ok simplified) : session.Bound simplified := by
  obtain ⟨filter, asOf, hfilter, hasOf, rfl⟩ := Select.simplifyWith_eq_ok hsimplify
  obtain ⟨table, htable, hbindTable⟩ := hresolved.table
  have hlists := listsResolved hresolved
  apply bound_of_names
  · exact ⟨table, htable, Select.bindTable_again hbindTable _ htable rfl⟩
  · exact hlists
  · rintro s (rfl | rfl)
    · obtain ⟨e, he, hs⟩ := Select.onClause_eq_ok_iff.mp hfilter
      exact keepsNames_simplifyRounds 2 _ e s (namesResolved_of_resolved hresolved e (.inl he)) hs
    · obtain ⟨e, he, hs⟩ := Select.onClause_eq_ok_iff.mp hasOf
      exact keepsNames_simplifyRounds 2 _ e s (namesResolved_of_resolved hresolved e (.inr he)) hs
  · rintro s rfl
    obtain ⟨e, he, hs⟩ := Select.onClause_eq_ok_iff.mp hfilter
    obtain ⟨hbound, hboolean⟩ := hresolved.filter e he
    have htype := Expr.ensureBoolean_eq_ok_iff.mp hboolean
    exact dataType_of_clausePart (everywhere_clausePart_of_simplify hbound htype hs).self

/-! ## Columns and order -/

theorem isSome_definition? (hbound : session.Bound query) {field : FieldRef}
    (hfield : field ∈ query.fieldRefs) : (session.definition? field).isSome = true := by
  obtain ⟨definition, hdefinition, -⟩ := hbound.fields field hfield
  rw [hdefinition]
  rfl

theorem map_some_filterMap {α β : Type} {f : α → Option β} {l : List α}
    (h : ∀ a ∈ l, (f a).isSome = true) : (l.filterMap f).map some = l.map f := by
  rw [List.map_filterMap_some_eq_filter_map_isSome]
  apply List.filter_eq_self.mpr
  intro b hb
  obtain ⟨a, ha, rfl⟩ := List.mem_map.mp hb
  exact h a ha

/-- Each column is there, in its place. -/
theorem displayFields_of_bound (hbound : session.Bound query) {list : FieldList}
    (hlist : query.columns = some list) :
    (session.displayFields query).map some =
      list.fields.map fun field =>
        (session.definition? field).map FieldDefinition.referenceName := by
  simp only [displayFields, hlist]
  rw [List.map_filterMap]
  apply map_some_filterMap
  intro field hfield
  rw [Option.isSome_map]
  apply isSome_definition? hbound
  simp [Select.fieldRefs, Select.listed, hlist, hfield]

/-- Each sort field is there, in its place and with its direction. -/
theorem sortFields_of_bound (hbound : session.Bound query) :
    (session.sortFields query).map some =
      (Select.listed query.ordering).map fun field =>
        (session.definition? field).map fun definition =>
          ⟨definition.referenceName, field.direction == .descending⟩ := by
  have hsame : session.sortFields query = (Select.listed query.ordering).filterMap fun field =>
      (session.definition? field).map fun definition =>
        ⟨definition.referenceName, field.direction == .descending⟩ := by
    show List.filterMap _ (Select.listed query.ordering) = _
    congr
    funext field
    cases session.definition? field <;> rfl
  rw [hsame]
  apply map_some_filterMap
  intro field hfield
  rw [Option.isSome_map]
  apply isSome_definition? hbound
  simp [Select.fieldRefs, hfield]

/-- The fields of an ordering that passes its check have different identities. -/
theorem pairwise_of_verifyOrdering {earlier fields : List FieldRef}
    (hverify : session.verifyOrdering earlier fields = .ok ()) :
    (∀ field ∈ fields, ∀ before ∈ earlier, before.id ≠ field.id) ∧
      fields.Pairwise fun a b => a.id ≠ b.id := by
  induction fields generalizing earlier with
  | nil => simp
  | cons field later ih =>
      rw [verifyOrdering] at hverify
      obtain ⟨definition, -, hverify⟩ := bind_eq_ok_iff.mp hverify
      obtain ⟨⟨⟩, hnew, hverify⟩ := bind_eq_ok_iff.mp hverify
      obtain ⟨⟨⟩, -, hverify⟩ := bind_eq_ok_iff.mp hverify
      obtain ⟨⟨⟩, -, hverify⟩ := bind_eq_ok_iff.mp hverify
      obtain ⟨hearlier, hlater⟩ := ih hverify
      have hnew : ∀ before ∈ earlier, before.id ≠ field.id := by
        simpa using Error.ensure_eq_ok_iff.mp hnew
      refine ⟨?_, List.pairwise_cons.mpr ⟨?_, hlater⟩⟩
      · intro other hother before hbefore
        rcases List.mem_cons.mp hother with rfl | hother
        · exact hnew before hbefore
        · exact hearlier other hother before (by simp [hbefore])
      · intro other hother
        exact hearlier other hother field (by simp)

/-- A catalog in which each field stands under its reference name has one field of
each, so different fields sort by different names. -/
theorem referenceName_ne (hfiled : Catalog.Filed session.catalog.fields) {a b : FieldRef}
    (ha : (session.definition? a).isSome = true) (hid : a.id ≠ b.id) :
    (session.definition? a).map FieldDefinition.referenceName ≠
      (session.definition? b).map FieldDefinition.referenceName := by
  intro hname
  obtain ⟨first, hfirst⟩ := Option.isSome_iff_exists.mp ha
  rw [hfirst, Option.map_some, eq_comm, Option.map_eq_some_iff] at hname
  obtain ⟨second, hsecond, hname⟩ := hname
  obtain ⟨i, hi, hfirst⟩ := Option.bind_eq_some_iff.mp hfirst
  obtain ⟨j, hj, hsecond⟩ := Option.bind_eq_some_iff.mp hsecond
  have hsame : first = second := by
    apply Option.some.inj
    calc
      some first = session.catalog.field? first.referenceName :=
        (Catalog.field?_referenceName hfiled hfirst).symm
      _ = session.catalog.field? second.referenceName := by rw [hname]
      _ = some second := Catalog.field?_referenceName hfiled hsecond
  have hfirstId : first.id = i := by simpa using List.find?_some hfirst
  have hsecondId : second.id = j := by simpa using List.find?_some hsecond
  rw [hi, hj, ← hfirstId, ← hsecondId, hsame] at hid
  exact hid rfl

/-- No field is sorted by twice. -/
theorem nodup_sortFields (hfiled : Catalog.Filed session.catalog.fields)
    (hbound : session.Bound query)
    (hordering : ∀ list, query.ordering = some list →
      session.verifyOrdering [] list.fields = .ok ()) :
    ((session.sortFields query).map SortField.referenceName).Nodup := by
  have hids : (Select.listed query.ordering).Pairwise fun a b => a.id ≠ b.id := by
    cases hlist : query.ordering with
    | none => exact List.Pairwise.nil
    | some list => exact (pairwise_of_verifyOrdering (hordering list hlist)).2
  have hnames : ((session.sortFields query).map SortField.referenceName).map some =
      (Select.listed query.ordering).map fun field =>
        (session.definition? field).map FieldDefinition.referenceName := by
    calc
      ((session.sortFields query).map SortField.referenceName).map some =
          ((session.sortFields query).map some).map (Option.map SortField.referenceName) := by
        simp
      _ = (Select.listed query.ordering).map fun field =>
          (session.definition? field).map FieldDefinition.referenceName := by
        rw [sortFields_of_bound hbound, List.map_map]
        apply List.map_congr_left
        intro field _
        simp only [Function.comp_apply, Option.map_map]
        rfl
  have hdistinct : (((session.sortFields query).map SortField.referenceName).map some).Nodup := by
    rw [hnames, List.Nodup, List.pairwise_map]
    apply hids.imp_of_mem
    intro a b ha _ hid
    apply referenceName_ne hfiled (isSome_definition? hbound _) hid
    simp [Select.fieldRefs, ha]
  rw [List.Nodup, List.pairwise_map] at hdistinct
  exact hdistinct.imp fun hne heq => hne (congrArg some heq)

end Session

/-- Resolving a list of fields leaves its kind. -/
theorem Select.kind_of_bind {schema : Schema} {query bound : Select}
    (hquery : ∀ list ∈ query.ordering, list.kind = .order)
    (hbind : query.bind schema = .ok bound) {list : FieldList}
    (hlist : bound.ordering = some list) : list.kind = .order := by
  obtain ⟨table, hbinds⟩ := exists_binds hbind
  obtain ⟨written, hwritten, hfound⟩ := onClause_eq_ok_iff.mp (hlist ▸ hbinds.ordering)
  obtain ⟨fields, -, hfound⟩ := bind_eq_ok_iff.mp hfound
  obtain ⟨⟨⟩, -, hfound⟩ := bind_eq_ok_iff.mp hfound
  cases hfound
  exact hquery written hwritten

/-- A resolved query is bound and is left as it is by resolving it again.  It stays
bound when it is simplified, so no column and no sort field is dropped, and no two
sort fields have the same name. -/
theorem Compiler.bound_of_bind {compiler : Compiler} {session : Session} {text : String}
    {query : Select} (hfiled : Catalog.Filed compiler.catalog.fields)
    (hsession : compiler.session = .ok session) (hbind : compiler.bind text = .ok query) :
    session.bind query = .ok query ∧
      ∀ q, q = query ∨ session.simplifyQuery query = .ok q →
        session.Bound q ∧
        (∀ list, q.columns = some list →
          (session.displayFields q).map some = list.fields.map fun field =>
            (session.definition? field).map FieldDefinition.referenceName) ∧
        (session.sortFields q).map some = (Select.listed q.ordering).map (fun field =>
          (session.definition? field).map fun definition =>
            ⟨definition.referenceName, field.direction == .descending⟩) ∧
        ((session.sortFields q).map SortField.referenceName).Nodup := by
  rw [Compiler.bind, hsession] at hbind
  obtain ⟨parsed, hparse, hbind⟩ := bind_eq_ok_iff.mp hbind
  have hresolved : query.Resolved session.schema := Select.resolved_of_bind hbind
  have hcatalog : session.catalog = compiler.catalog := by
    obtain ⟨zone, -, hstart⟩ := bind_eq_ok_iff.mp hsession
    cases hstart
    rfl
  have hordering : ∀ list, query.ordering = some list →
      session.verifyOrdering [] list.fields = .ok () := by
    intro list hlist
    have hkind := Select.kind_of_bind
      (fun list hlist => ((Select.printable_of_parse hparse).ordering list hlist).kind_eq)
      hbind hlist
    have hrules : session.verifyFields list = .ok () := (hresolved.ordering list hlist).rules
    rwa [Session.verifyFields, hkind] at hrules
  refine ⟨(Select.resolved_iff session.schema_canonical).mp hresolved, fun q hq => ?_⟩
  have hbound : session.Bound q := by
    obtain rfl | hq := hq
    · exact Session.bound_of_resolved hresolved
    · exact Session.bound_of_simplifyQuery hresolved hq
  have hsame : q.ordering = query.ordering := by
    obtain rfl | hq := hq
    · rfl
    · obtain ⟨filter, asOf, -, -, rfl⟩ := Select.simplifyWith_eq_ok hq
      rfl
  refine ⟨hbound, fun list => Session.displayFields_of_bound hbound,
    Session.sortFields_of_bound hbound, ?_⟩
  apply Session.nodup_sortFields (hcatalog ▸ hfiled) hbound
  rw [hsame]
  exact hordering

/-- A link query with fields of the source, the target and the link, a list with a
macro, and an order. -/
theorem Compiler.bound_of_bind_links :
    ∃ session query simplified,
      Catalog.Filed ({} : Compiler).catalog.fields ∧
      ({} : Compiler).session = .ok session ∧
      ({} : Compiler).bind ("select [System.Id], [Target].Title from WorkItemLinks where " ++
        "State in ('a', @me) and [Target].[Team Project] <> '' and [Link Type] <> '' " ++
        "order by Title desc, [System.Id] mode (MayContain)") = .ok query ∧
      session.simplifyQuery query = .ok simplified ∧ session.bind query = .ok query ∧
      session.Bound simplified ∧ simplified.columns.isSome = true ∧
      ((session.sortFields simplified).map SortField.referenceName).Nodup := by
  have hcompiles : (do
      let session ← ({} : Compiler).session.toOption
      let query ← (({} : Compiler).bind
        ("select [System.Id], [Target].Title from WorkItemLinks where " ++
        "State in ('a', @me) and [Target].[Team Project] <> '' and [Link Type] <> '' " ++
        "order by Title desc, [System.Id] mode (MayContain)")).toOption
      let simplified ← (session.simplifyQuery query).toOption
      simplified.columns).isSome = true := by
    decide +kernel
  obtain ⟨list, hcompiles⟩ := Option.isSome_iff_exists.mp hcompiles
  simp only [Option.bind_eq_bind, Option.bind_eq_some_iff, toOption_eq_some_iff] at hcompiles
  obtain ⟨session, hsession, query, hquery, simplified, hsimplified, hcolumns⟩ := hcompiles
  obtain ⟨hagain, hbound⟩ := Compiler.bound_of_bind Catalog.filed_core hsession hquery
  obtain ⟨hsimple, -, -, hnames⟩ := hbound simplified (.inr hsimplified)
  exact ⟨session, query, simplified, Catalog.filed_core, hsession, hquery, hsimplified, hagain,
    hsimple, by rw [hcolumns]; rfl, hnames⟩

end TrackerQuery

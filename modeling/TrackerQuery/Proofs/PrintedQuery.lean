import TrackerQuery.Proofs.PrintedTooDeep

/-!
# Reading printed queries

The printed text of a query parses to the query itself, up to places, whatever order
its clauses were written in.
-/

namespace TrackerQuery

open Grammar
open TrackerQuery.Parser (Stops stops_cons)
open Scan (Reads Ends)

/-! ## Lists of names -/

/-- A printed field is read back with its direction. -/
theorem reads_orderedField {field : FieldRef} (hfield : field.Printable) :
    Reads field.render.toList (Like (OrderedField PlainName) FieldRef.unplaced field) := by
  have hplain : field.reference.Printable := { hfield with }
  have hread := reads_field hplain rfl
  cases hdirection : field.direction with
  | unspecified =>
      refine (reads_field hfield hdirection).imp ?_
      rintro ts ⟨field', hfield', heq⟩
      exact ⟨field', .plain hfield', heq⟩
  | ascending =>
      have htext : field.render.toList = field.reference.render.toList ++ ' ' :: "asc".toList := by
        simp [FieldRef.render, FieldRef.reference, hdirection, toString]
      rw [htext]
      refine (hread.spaced (Scan.reads_keyword "asc" (by decide) (by decide))).imp ?_
      rintro _ ⟨us, _, rfl, ⟨field', hfield', heq⟩, t, rfl, ht⟩
      refine ⟨_, .ascending hfield' ht, ?_⟩
      cases field
      cases field'
      simp_all [FieldRef.unplaced, FieldRef.reference]
  | descending =>
      have htext : field.render.toList = field.reference.render.toList ++ ' ' :: "desc".toList := by
        simp [FieldRef.render, FieldRef.reference, hdirection, toString]
      rw [htext]
      refine (hread.spaced (Scan.reads_keyword "desc" (by decide) (by decide))).imp ?_
      rintro _ ⟨us, _, rfl, ⟨field', hfield', heq⟩, t, rfl, ht⟩
      refine ⟨_, .descending hfield' ht, ?_⟩
      cases field
      cases field'
      simp_all [FieldRef.unplaced, FieldRef.reference]

/-- A printed list of fields is read back. -/
theorem reads_fieldList {kind : FieldListKind} {list : FieldList} (hlist : list.Printable kind) :
    Reads list.render.toList (Like (Fields PlainName kind) FieldList.unplaced list) := by
  have hitems : ∀ field ∈ list.fields,
      Reads field.render.toList (Like (ListItem PlainName kind) FieldRef.unplaced field) := by
    intro field hfield
    have hprintable := hlist.fields field hfield
    cases kind with
    | select => exact reads_field hprintable (hlist.directions (by decide) field hfield)
    | group => exact reads_field hprintable (hlist.directions (by decide) field hfield)
    | order => exact reads_orderedField hprintable
  have htext : list.render.toList =
      ", ".toList.intercalate (list.fields.map fun field => field.render.toList) := by
    simp [FieldList.render, String.toList_intercalate, Function.comp_def]
  rw [htext]
  refine (reads_commas hlist.nonempty hitems).imp ?_
  rintro ts ⟨fields, hfields, heq⟩
  refine ⟨_, .mk hfields, ?_⟩
  simp only [FieldList.unplaced, heq, hlist.kind_eq]

theorem reads_modes {modes : ModeList} (hne : modes.items ≠ [])
    (hnames : ∀ item ∈ modes.items, Scan.IsBracketable item.name.toList) :
    Reads modes.render.toList (Like (Modes PlainName) ModeList.unplaced modes) := by
  have hitems : ∀ item ∈ modes.items,
      Reads (renderName item.name).toList (Like (ModeName PlainName) ModeItem.unplaced item) := by
    intro item hitem
    refine (reads_name (hnames item hitem)).imp ?_
    rintro _ ⟨t, rfl, hvalue, ht⟩
    exact ⟨_, .mk ht, by simp [ModeItem.unplaced, hvalue]⟩
  have htext : modes.render.toList = '(' ::
      (", ".toList.intercalate (modes.items.map fun item => (renderName item.name).toList) ++
        [')']) := by
    simp [ModeList.render, String.toList_intercalate, Function.comp_def, toString]
  rw [htext]
  refine (reads_commas hne hitems).parens.imp ?_
  rintro _ ⟨opening, us, closing, rfl, hopening, ⟨items, hitems, heq⟩, hclosing⟩
  refine ⟨_, .mk hopening hitems hclosing, ?_⟩
  simp only [ModeList.unplaced, heq]

/-! ## Clauses -/

theorem clauses_append {named : Token → Prop} {ts us : List Token} {query next last : Select}
    (hts : Clauses named ts query next) (hus : Clauses named us next last) :
    Clauses named (ts ++ us) query last := by
  induction hts with
  | nil => exact hus
  | cons hclause _ ih =>
      rw [List.append_assoc]
      exact .cons hclause (ih hus)

/-- The tokens add to a query what is like `clause`, where the query has nothing
yet. -/
def Adds {α : Type} (slot : Select → Option α) (put : Select → Option α → Select) (erase : α → α)
    (clause : Option α) (ts : List Token) : Prop :=
  ∃ found, found.map erase = clause.map erase ∧
    ∀ query, slot query = none → Clauses PlainName ts query (put query found)

theorem ends_renderClause {α : Type} {keyword : String} {render : α → String}
    (clause : Option α) : Ends (Select.renderClause keyword render clause).toList := by
  cases clause with
  | none => simp [Select.renderClause, Ends, Scan.Halts]
  | some a => simp [Select.renderClause, toString, Scan.ends_cons, Scan.isEnd]

/-- A printed clause is read back, and nothing where there is none. -/
theorem reads_renderClause {α : Type} {slot : Select → Option α}
    {put : Select → Option α → Select} {erase : α → α} {keyword : String} {render : α → String}
    {clause : Option α} (hput : ∀ query, slot query = none → put query none = query)
    (hclause : ∀ a ∈ clause, Reads (keyword.toList ++ ' ' :: (render a).toList) fun ts =>
      ∃ b, erase b = erase a ∧
        ∀ query, slot query = none → Clause PlainName ts query (put query (some b))) :
    Reads (Select.renderClause keyword render clause).toList (Adds slot put erase clause) := by
  cases clause with
  | none =>
      refine Scan.reads_nil.imp ?_
      rintro _ rfl
      refine ⟨none, rfl, fun query hslot => ?_⟩
      rw [hput query hslot]
      exact .nil
  | some a =>
      have htext : (Select.renderClause keyword render (some a)).toList =
          ' ' :: (keyword.toList ++ ' ' :: (render a).toList) := by
        simp [Select.renderClause, toString]
      rw [htext]
      refine (hclause a rfl).blank.imp ?_
      rintro ts ⟨b, heq, hb⟩
      refine ⟨some b, by simp [heq], fun query hslot => ?_⟩
      have hadded := Clauses.cons (hb query hslot) .nil
      rwa [List.append_nil] at hadded

section Parts

variable {query : Select} (hquery : query.Printable)

include hquery

theorem reads_columns :
    Reads (match query.columns with
      | some list => list.render
      | none => "*").toList fun ts =>
      ∃ columns, columns.map FieldList.unplaced = query.columns.map FieldList.unplaced ∧
        Columns PlainName ts columns := by
  cases hcolumns : query.columns with
  | none =>
      have hstar : Reads "*".toList (Scan.Single .operation "*") := Scan.reads_symbol (by decide)
      refine hstar.imp ?_
      rintro _ ⟨span, rfl⟩
      exact ⟨none, rfl, .all rfl⟩
  | some list =>
      refine (reads_fieldList (hquery.columns list hcolumns)).imp ?_
      rintro ts ⟨list', hlist', heq⟩
      exact ⟨some list', by simp [heq], .fields hlist'⟩

theorem reads_table :
    Reads (Select.renderClause "from" TableRef.render query.table).toList
      (Adds Select.table (fun q table => { q with table }) TableRef.unplaced query.table) := by
  refine reads_renderClause (fun q hq => by cases q; simp_all) fun table htable => ?_
  obtain ⟨hname, hresolved⟩ := hquery.table table htable
  refine ((Scan.reads_keyword "from" (by decide) (by decide)).spaced
    (reads_name hname)).imp ?_
  rintro _ ⟨_, _, rfl, ⟨word, rfl, hword⟩, t, rfl, hvalue, ht⟩
  refine ⟨_, ?_, fun q hq => .table hword hq ht⟩
  cases table
  simp_all [TableRef.unplaced]

theorem reads_where (hnesting : ∀ filter ∈ query.filter, filter.nesting ≤ maxNesting) :
    Reads (Select.renderClause "where" Expr.render query.filter).toList
      (Adds Select.filter (fun q filter => { q with filter }) Expr.unplaced query.filter) := by
  refine reads_renderClause (fun q hq => by cases q; simp_all) fun e he => ?_
  refine ((Scan.reads_keyword "where" (by decide) (by decide)).spaced
    (reads_filter (hquery.filter e he) (hnesting e he))).imp ?_
  rintro _ ⟨_, us, rfl, ⟨word, rfl, hword⟩, e', he', heq⟩
  exact ⟨e', heq, fun q hq => .filter hword hq he'⟩

theorem reads_grouping :
    Reads (Select.renderClause "group by" FieldList.render query.grouping).toList
      (Adds Select.grouping (fun q grouping => { q with grouping }) FieldList.unplaced
        query.grouping) := by
  refine reads_renderClause (fun q hq => by cases q; simp_all) fun list hlist => ?_
  refine ((Scan.reads_keyword "group" (by decide) (by decide)).spaced
    ((Scan.reads_keyword "by" (by decide) (by decide)).spaced
      (reads_fieldList (hquery.grouping list hlist)))).imp ?_
  rintro _ ⟨_, _, rfl, ⟨word, rfl, hword⟩, _, us, rfl, ⟨by_, rfl, hby⟩, list', hlist', heq⟩
  exact ⟨list', heq, fun q hq => .grouping hword hby hq hlist'⟩

theorem reads_ordering :
    Reads (Select.renderClause "order by" FieldList.render query.ordering).toList
      (Adds Select.ordering (fun q ordering => { q with ordering }) FieldList.unplaced
        query.ordering) := by
  refine reads_renderClause (fun q hq => by cases q; simp_all) fun list hlist => ?_
  refine ((Scan.reads_keyword "order" (by decide) (by decide)).spaced
    ((Scan.reads_keyword "by" (by decide) (by decide)).spaced
      (reads_fieldList (hquery.ordering list hlist)))).imp ?_
  rintro _ ⟨_, _, rfl, ⟨word, rfl, hword⟩, _, us, rfl, ⟨by_, rfl, hby⟩, list', hlist', heq⟩
  exact ⟨list', heq, fun q hq => .ordering hword hby hq hlist'⟩

theorem reads_asOf :
    Reads (Select.renderClause "asof" Expr.render query.asOf).toList
      (Adds Select.asOf (fun q asOf => { q with asOf }) Expr.unplaced query.asOf) := by
  refine reads_renderClause (fun q hq => by cases q; simp_all) fun e he => ?_
  refine ((Scan.reads_keyword "asof" (by decide) (by decide)).spaced
    (reads_value (hquery.asOf e he))).imp ?_
  rintro _ ⟨_, us, rfl, ⟨word, rfl, hword⟩, e', he', heq⟩
  exact ⟨e', heq, fun q hq => .asOf hword hq he'⟩

theorem reads_mode :
    Reads (Select.renderClause "mode" ModeList.render query.modes).toList
      (Adds Select.modes (fun q modes => { q with modes }) ModeList.unplaced query.modes) := by
  refine reads_renderClause (fun q hq => by cases q; simp_all) fun modes hmodes => ?_
  obtain ⟨hne, hnames⟩ := hquery.modes modes hmodes
  refine ((Scan.reads_keyword "mode" (by decide) (by decide)).spaced
    (reads_modes hne hnames)).imp ?_
  rintro _ ⟨_, us, rfl, ⟨word, rfl, hword⟩, modes', hmodes', heq⟩
  exact ⟨modes', heq, fun q hq => .modes hword hq hmodes'⟩

/-- A printable query is read back if its filter does not nest too deep. -/
theorem reads_query (hnesting : ∀ filter ∈ query.filter, filter.nesting ≤ maxNesting) :
    Reads query.render.toList (Like (Query PlainName) Select.unplaced query) := by
  have hstart := (Scan.reads_keyword "select" (by decide) (by decide)).spaced
    (reads_columns hquery)
  have hread := hstart.append (reads_table hquery) (ends_renderClause _)
    |>.append (reads_where hquery hnesting) (ends_renderClause _)
    |>.append (reads_grouping hquery) (ends_renderClause _)
    |>.append (reads_ordering hquery) (ends_renderClause _)
    |>.append (reads_asOf hquery) (ends_renderClause _)
    |>.append (reads_mode hquery) (ends_renderClause _)
  simp only [Select.render, toString, String.toList_append]
  refine hread.imp ?_
  rintro _ ⟨_, t₆, rfl, ⟨_, t₅, rfl, ⟨_, t₄, rfl, ⟨_, t₃, rfl, ⟨_, t₂, rfl, ⟨_, t₁, rfl,
    ⟨_, us, rfl, ⟨word, rfl, hword⟩, columns, hcolumns, hlist⟩, table, htable, h₁⟩,
    filter, hfilter, h₂⟩, grouping, hgrouping, h₃⟩, ordering, hordering, h₄⟩, asOf, hasOf, h₅⟩,
    modes, hmodes, h₆⟩
  have hclauses := clauses_append (h₁ { columns } rfl) (clauses_append (h₂ _ rfl)
    (clauses_append (h₃ _ rfl) (clauses_append (h₄ _ rfl) (clauses_append (h₅ _ rfl) (h₆ _ rfl)))))
  simp only [List.append_assoc, List.singleton_append]
  refine ⟨_, .mk hword hlist hclauses, ?_⟩
  simp only [Select.unplaced, hcolumns, htable, hfilter, hgrouping, hordering, hasOf, hmodes]

/-- Reading the printed query fails if its filter nests too deep. -/
theorem reads_query_tooDeep {filter : Expr} (hfilter : query.filter = some filter)
    (hdeep : maxNesting < filter.nesting) :
    Reads query.render.toList fun ts =>
      ∃ place, Select.ofTokens ts = .error (.fault .tooComplexExpression place) := by
  have hstart := (Scan.reads_keyword "select" (by decide) (by decide)).spaced
    (reads_columns hquery)
  have hwhere : Reads (Select.renderClause "where" Expr.render query.filter).toList fun ts =>
      ∃ word us, ts = word :: us ∧ word.isKeyword "where" = true ∧ TooDeep Expr.filter us := by
    have htext : (Select.renderClause "where" Expr.render query.filter).toList =
        ' ' :: ("where".toList ++ ' ' :: filter.render.toList) := by
      simp [hfilter, Select.renderClause, toString]
    rw [htext]
    refine ((Scan.reads_keyword "where" (by decide) (by decide)).spaced
      (reads_filter_tooDeep (hquery.filter filter hfilter) hdeep)).blank.imp ?_
    rintro _ ⟨_, us, rfl, ⟨word, rfl, hword⟩, hus⟩
    exact ⟨word, us, rfl, hword, hus⟩
  have hread := hstart.append (reads_table hquery) (ends_renderClause _)
    |>.append hwhere (ends_renderClause _)
    |>.append (reads_grouping hquery) (ends_renderClause _)
    |>.append (reads_ordering hquery) (ends_renderClause _)
    |>.append (reads_asOf hquery) (ends_renderClause _)
    |>.append (reads_mode hquery) (ends_renderClause _)
  simp only [Select.render, toString, String.toList_append]
  refine hread.imp ?_
  rintro _ ⟨_, t₆, rfl, ⟨_, t₅, rfl, ⟨_, t₄, rfl, ⟨_, t₃, rfl, ⟨_, _, rfl, ⟨_, t₁, rfl,
    ⟨_, us, rfl, ⟨word, rfl, hword⟩, columns, -, hlist⟩, table, -, h₁⟩,
    keyword, t₂, rfl, hkeyword, h₂⟩, -⟩, -⟩, -⟩, -⟩
  have hclauses := h₁ { columns } rfl
  have hkind : Select.ClauseKind.ofToken? keyword = some .where := clauseKind_of_isKeyword hkeyword
  have hstops : Stops continuesClause (keyword :: (t₂ ++ (t₃ ++ (t₄ ++ (t₅ ++ t₆))))) :=
    stops_cons.mpr (@continuesClause_eq_false keyword .where hkeyword)
  obtain ⟨place, hfail⟩ := h₂ (t₃ ++ (t₄ ++ (t₅ ++ t₆)))
  simp only [List.append_assoc, List.cons_append, List.nil_append]
  refine ⟨place, ofTokens_eq_error hword
    (columns_of_columns hlist (hclauses.stops.append hstops)) ?_⟩
  rw [clauses_append_of_clauses hclauses hstops, Select.clauses, hkind]
  simp only [Select.clause, hfail, bind, Except.bind]
  rfl

end Parts

end TrackerQuery

import TrackerQuery.Proofs.GrammarComplete

/-!
# Reading whole queries

The clauses of a query begin with words that continue no clause before them, so
a derivation of a query is the one that is read.
-/

namespace TrackerQuery.Grammar

open TrackerQuery.Parser

def continuesField (t : Token) : Bool :=
  isDot t || t.isKeyword "asc" || t.isKeyword "desc"

/-- Derived fields are read with their directions. -/
theorem complete_orderedField :
    Complete Select.orderedField (OrderedField PlainName) continuesField := by
  have hfound : ∀ {ts field rest}, Field PlainName ts field → Stops isDot rest →
      expect .expectingFieldName Expr.fieldRef? (ts ++ rest) = .ok (field, rest) :=
    fun hfield hrest => expect_eq_ok_iff.mpr (fieldRef?_of_field hfield hrest)
  have hafter : ∀ {t : Token} {word rest}, t.isKeyword word = true → Stops isDot (t :: rest) :=
    fun hword => stops_cons.mpr
      (Token.isOperation_eq_false (by simp [Token.kind_of_isKeyword hword]))
  intro ts field rest he hrest
  cases he with
  | plain hfield =>
      have hstops := fun t ht => Bool.or_eq_false_iff.mp (hrest t ht)
      have hdot : Stops isDot rest := fun t ht => (Bool.or_eq_false_iff.mp (hstops t ht).1).1
      have hasc : keyword? "asc" rest = none :=
        token?_eq_none fun t ht => (Bool.or_eq_false_iff.mp (hstops t ht).1).2
      have hdesc : keyword? "desc" rest = none := token?_eq_none fun t ht => (hstops t ht).2
      rw [Select.orderedField, hfound hfield hdot]
      simp only [bind, Except.bind, hasc, hdesc]
      rfl
  | @ascending ts field t hfield hword =>
      have hasc : keyword? "asc" (t :: rest) = some (t, rest) :=
        keyword?_eq_some_iff.mpr ⟨rfl, hword⟩
      rw [List.append_assoc, List.singleton_append, Select.orderedField,
        hfound hfield (hafter hword)]
      simp only [bind, Except.bind, hasc]
      rfl
  | @descending ts field t hfield hword =>
      have hasc : keyword? "asc" (t :: rest) = none := by
        refine token?_eq_none (stops_cons.mpr ?_)
        rw [Token.isKeyword_eq_of_isKeyword hword]
        rfl
      have hdesc : keyword? "desc" (t :: rest) = some (t, rest) :=
        keyword?_eq_some_iff.mpr ⟨rfl, hword⟩
      rw [List.append_assoc, List.singleton_append, Select.orderedField,
        hfound hfield (hafter hword)]
      simp only [bind, Except.bind, hasc, hdesc]
      rfl

theorem Separated.start {α : Type} {item : List Token → α → Prop} {separator : Token → Bool}
    {P : Token → Prop} (hitem : ∀ ts a, item ts a → ∃ t us, ts = t :: us ∧ P t)
    {ts : List Token} {as : List α} (hall : Separated item separator ts as) :
    ∃ t us, ts = t :: us ∧ P t := by
  cases hall with
  | one hfirst => exact hitem _ _ hfirst
  | more hfirst hseparator hothers =>
      obtain ⟨t, us, rfl, ht⟩ := hitem _ _ hfirst
      exact ⟨t, _, rfl, ht⟩

theorem Fields.start {named : Token → Prop} {kind : FieldListKind} {ts : List Token}
    {list : FieldList} (hlist : Fields named kind ts list) : ∃ t us, ts = t :: us ∧ named t := by
  obtain ⟨hfields⟩ := hlist
  refine hfields.start fun ts field hfield => ?_
  cases kind with
  | order =>
      cases hfield with
      | plain hfield => exact hfield.start
      | ascending hfield | descending hfield =>
          obtain ⟨t, us, rfl, ht⟩ := hfield.start
          exact ⟨t, _, rfl, ht⟩
  | _ => exact Field.start hfield

def continuesFields (t : Token) : Bool :=
  continuesField t || isComma t

/-- Derived lists of fields are read. -/
theorem complete_fieldList (kind : FieldListKind) :
    Complete (Select.fieldList kind) (Fields PlainName kind) continuesFields := by
  have hitem : Complete (Select.listItem kind) (ListItem PlainName kind) continuesField := by
    cases kind with
    | order => exact complete_orderedField
    | _ =>
        intro ts field rest he hrest
        refine expect_eq_ok_iff.mpr (fieldRef?_of_field he (hrest.imp fun t ht => ?_))
        exact (Bool.or_eq_false_iff.mp (Bool.or_eq_false_iff.mp ht).1).1
  have hcomma : ∀ t, isComma t = true → continuesField t = false := fun t ht => by
    simp [continuesField, isDot, Token.isOperation_eq_of_isOperation ht,
      Token.isKeyword_eq_false (by simp [Token.kind_of_isOperation ht] : t.kind ≠ .name)]
  intro ts list rest he hrest
  obtain ⟨hfields⟩ := he
  have hread := complete_sepBy hitem hcomma _ _ _ hfields hrest
  rw [Select.fieldList, show (fun t : Token => t.isOperation ",") = isComma from rfl, hread]
  rfl

theorem complete_modeList : Complete Select.modeList (Modes PlainName) fun _ => false := by
  have hitem : Complete (expect .expectingMode Select.modeItem?) (ModeName PlainName)
      fun _ => false := by
    rintro ts item rest ⟨hname⟩ -
    exact expect_eq_ok_iff.mpr (by simp [Select.modeItem?, token?, hname.isName])
  intro ts modes rest he hrest
  obtain ⟨hopening, hitems, hclosing⟩ := he
  exact bracketed_of_separated hitem (fun _ _ _ _ => rfl) _ hopening hitems hclosing rest

theorem clauseKind_of_isKeyword {t : Token} {kind : Select.ClauseKind}
    (hword : t.isKeyword (clauseWord kind) = true) :
    Select.ClauseKind.ofToken? t = some kind := by
  have hsame := Token.isKeyword_eq_of_isKeyword hword
  cases kind <;> simp only [Select.ClauseKind.ofToken?, hsame, clauseWord] <;> rfl

def continuesClause (t : Token) : Bool :=
  continuesDisjunction t || continuesFields t

theorem continuesClause_eq_false {t : Token} {kind : Select.ClauseKind}
    (hword : t.isKeyword (clauseWord kind) = true) : continuesClause t = false := by
  have hsame := Token.isKeyword_eq_of_isKeyword hword
  have hoperation : ∀ text, t.isOperation text = false := fun text =>
    Token.isOperation_eq_false (by simp [Token.kind_of_isKeyword hword])
  cases kind <;>
    simp only [continuesClause, continuesDisjunction, continuesConjunction, continuesOperand, isDot,
      continuesValue, isAnd, isOr, continuesFields, continuesField, isComma, hsame, hoperation,
      Token.kind_of_isKeyword hword, clauseWord] <;> rfl

/-- A clause begins with its word and is read from there. -/
theorem clause_of_clause {ts rest : List Token} {query next : Select}
    (hclause : Clause PlainName ts query next) (hrest : Stops continuesClause rest) :
    ∃ word others kind, ts = word :: others ∧ word.isKeyword (clauseWord kind) = true ∧
      Select.clause query word kind (others ++ rest) = .ok (next, rest) := by
  have hfilter : Stops continuesDisjunction rest :=
    hrest.imp fun t ht => (Bool.or_eq_false_iff.mp ht).1
  have hfields : Stops continuesFields rest :=
    hrest.imp fun t ht => (Bool.or_eq_false_iff.mp ht).2
  have honce : ∀ {α : Type} {earlier : Option α} {cause word}, earlier = none →
      Select.once earlier cause word = .ok () := by
    rintro α earlier cause word rfl
    rfl
  have hby : ∀ {by_ : Token} {others : List Token}, by_.isKeyword "by" = true →
      expect .expectingBy (keyword? "by") (by_ :: others) = .ok (by_, others) :=
    fun hword => expect_eq_ok_iff.mpr (keyword?_eq_some_iff.mpr ⟨rfl, hword⟩)
  cases hclause with
  | @table word t query hword hfirst hname =>
      refine ⟨word, [t], .from, rfl, hword, ?_⟩
      have htable : expect .expectingTableName Select.tableRef? (t :: rest) =
          .ok ({ name := t.value, span := t.span }, rest) :=
        expect_eq_ok_iff.mpr (by simp [Select.tableRef?, token?, hname.isName])
      simp only [Select.clause, honce hfirst, List.singleton_append, htable, bind, Except.bind]
      rfl
  | @filter word ts e query hword hfirst hfound =>
      refine ⟨word, ts, .where, rfl, hword, ?_⟩
      have hread : Expr.filter (ts ++ rest) = .ok (e, rest) :=
        complete_disjunction (complete_operand maxNesting) _ _ _ hfound hfilter
      simp only [Select.clause, honce hfirst, hread, bind, Except.bind]
      rfl
  | @grouping word by_ ts list query hword hsecond hfirst hlist =>
      refine ⟨word, by_ :: ts, .group, rfl, hword, ?_⟩
      have hread := complete_fieldList .group _ _ _ hlist hfields
      simp only [Select.clause, List.cons_append, hby hsecond, honce hfirst, hread, bind,
        Except.bind]
      rfl
  | @ordering word by_ ts list query hword hsecond hfirst hlist =>
      refine ⟨word, by_ :: ts, .order, rfl, hword, ?_⟩
      have hread := complete_fieldList .order _ _ _ hlist hfields
      simp only [Select.clause, List.cons_append, hby hsecond, honce hfirst, hread, bind,
        Except.bind]
      rfl
  | @asOf word ts e query hword hfirst hvalue =>
      refine ⟨word, ts, .asOf, rfl, hword, ?_⟩
      have hread : expect .expectingValue Expr.value? (ts ++ rest) = .ok (e, rest) :=
        expect_eq_ok_iff.mpr (value?_of_value hvalue rest)
      simp only [Select.clause, honce hfirst, hread, bind, Except.bind]
      rfl
  | @modes word ts list query hword hfirst hmodes =>
      refine ⟨word, ts, .mode, rfl, hword, ?_⟩
      have hread := complete_modeList _ _ rest hmodes (fun t _ => rfl)
      simp only [Select.clause, honce hfirst, hread, bind, Except.bind]
      rfl

theorem Clause.start {named : Token → Prop} {ts : List Token} {query next : Select}
    (hclause : Clause named ts query next) :
    ∃ word others kind, ts = word :: others ∧ word.isKeyword (clauseWord kind) = true := by
  cases hclause with
  | table hword => exact ⟨_, _, .from, rfl, hword⟩
  | filter hword => exact ⟨_, _, .where, rfl, hword⟩
  | grouping hword => exact ⟨_, _, .group, rfl, hword⟩
  | ordering hword => exact ⟨_, _, .order, rfl, hword⟩
  | asOf hword => exact ⟨_, _, .asOf, rfl, hword⟩
  | modes hword => exact ⟨_, _, .mode, rfl, hword⟩

theorem Clauses.stops {named : Token → Prop} {ts : List Token} {query last : Select}
    (hclauses : Clauses named ts query last) : Stops continuesClause ts := by
  cases hclauses with
  | nil => exact stops_nil
  | cons hclause hothers =>
      obtain ⟨word, others, kind, rfl, hword⟩ := hclause.start
      exact stops_cons.mpr (continuesClause_eq_false hword)

/-- Clauses are read one after another. -/
theorem clauses_append_of_clauses {ts rest : List Token} {query last : Select}
    (hclauses : Clauses PlainName ts query last) (hrest : Stops continuesClause rest) :
    Select.clauses query (ts ++ rest) = Select.clauses last rest := by
  induction hclauses with
  | nil => rfl
  | @cons ts us query next last hclause hothers ih =>
      obtain ⟨word, others, kind, rfl, hword, hread⟩ :=
        clause_of_clause hclause (hothers.stops.append hrest)
      rw [List.append_assoc, List.cons_append, Select.clauses, clauseKind_of_isKeyword hword]
      simp only [hread, bind, Except.bind]
      rw [if_pos (by simp), ih]

theorem clauses_of_clauses {ts : List Token} {query last : Select}
    (hclauses : Clauses PlainName ts query last) : Select.clauses query ts = .ok (last, []) := by
  have hread := clauses_append_of_clauses hclauses stops_nil
  rwa [List.append_nil, Select.clauses] at hread

theorem columns_of_columns {ts rest : List Token} {list : Option FieldList}
    (hcolumns : Columns PlainName ts list) (hrest : Stops continuesClause rest) :
    columns (ts ++ rest) = .ok (list, rest) := by
  cases hcolumns with
  | all hstar =>
      have hread : operation? "*" _ = some (_, rest) := operation?_eq_some_iff.mpr ⟨rfl, hstar⟩
      rw [List.singleton_append, columns, hread]
  | fields hlist =>
      have hread := complete_fieldList .select _ _ rest hlist
        (hrest.imp fun t ht => (Bool.or_eq_false_iff.mp ht).2)
      obtain ⟨t, us, rfl, ht⟩ := hlist.start
      have hstar : operation? "*" (t :: (us ++ rest)) = none :=
        token?_eq_none (stops_cons.mpr (ht.isOperation "*"))
      rw [List.cons_append] at hread ⊢
      rw [columns, hstar]
      simp only [hread]
      rfl

/-- Every derivation of a whole query is the one that is read. -/
theorem ofTokens_of_query {ts : List Token} {query : Select} (hquery : Query PlainName ts query) :
    Select.ofTokens ts = .ok query := by
  obtain @⟨word, ts, list, us, last, hword, hcolumns, hclauses⟩ := hquery
  exact ofTokens_eq_ok_iff_isTail.mpr ⟨word, ts ++ us, list, us, last, [], rfl, hword,
    columns_of_columns hcolumns hclauses.stops, clauses_of_clauses hclauses, rfl, rfl⟩

end TrackerQuery.Grammar

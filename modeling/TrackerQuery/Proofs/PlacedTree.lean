import TrackerQuery.Proofs.GrammarSound
import TrackerQuery.Proofs.Tiling

/-!
# Placed trees

The tree of a derivation is placed where its tokens are: each of its spans is that of a
token, what is left of one after its sign, or covers others.
-/

namespace TrackerQuery

/-- The token is placed in the text, and so is what follows the sign of a number. -/
structure Token.PlacedIn (text : String) (t : Token) : Prop where
  span : t.span.PlacedIn text
  unsigned : t.kind = .number → ∀ op digits, op ≠ .missing →
    t.value = Arithmetic.render op ++ digits →
    Span.PlacedIn text ⟨t.span.start + 1, t.span.stop⟩

/-- An expression and all its parts are placed in the text. -/
inductive Expr.PlacedIn (text : String) : Expr → Prop
  | string {m value} (hm : m.span.PlacedIn text) : PlacedIn text (.string m value)
  | number {m value} (hm : m.span.PlacedIn text) : PlacedIn text (.number m value)
  | boolean {m value} (hm : m.span.PlacedIn text) : PlacedIn text (.boolean m value)
  | truth {m value} (hm : m.span.PlacedIn text) : PlacedIn text (.truth m value)
  | var {m v} (hm : m.span.PlacedIn text) : PlacedIn text (.var m v)
  | field {m f} (hm : m.span.PlacedIn text) (hfield : f.span.PlacedIn text) :
      PlacedIn text (.field m f)
  | list {m items} (hm : m.span.PlacedIn text) (hitems : ∀ e ∈ items, PlacedIn text e) :
      PlacedIn text (.list m items)
  | condition {m op left right} (hm : m.span.PlacedIn text) (hleft : left.span.PlacedIn text)
      (hright : PlacedIn text right) : PlacedIn text (.condition m op left right)
  | arithmetic {m op left right type} (hm : m.span.PlacedIn text) (hleft : PlacedIn text left)
      (hright : PlacedIn text right) : PlacedIn text (.arithmetic m op left right type)
  | junction {m connective operands} (hm : m.span.PlacedIn text)
      (hoperands : ∀ e ∈ operands, PlacedIn text e) :
      PlacedIn text (.junction m connective operands)
  | not {m operand} (hm : m.span.PlacedIn text) (hoperand : PlacedIn text operand) :
      PlacedIn text (.not m operand)
  | ever {m operand} (hm : m.span.PlacedIn text) (hoperand : PlacedIn text operand) :
      PlacedIn text (.ever m operand)

structure FieldList.PlacedIn (text : String) (list : FieldList) : Prop where
  span : list.span.PlacedIn text
  fields : ∀ field ∈ list.fields, field.span.PlacedIn text

structure ModeList.PlacedIn (text : String) (list : ModeList) : Prop where
  span : list.span.PlacedIn text
  items : ∀ item ∈ list.items, item.span.PlacedIn text

/-- The clauses that a query has are placed in the text. -/
structure Select.ClausesIn (text : String) (query : Select) : Prop where
  columns : ∀ list ∈ query.columns, list.PlacedIn text
  table : ∀ table ∈ query.table, table.span.PlacedIn text
  filter : ∀ e ∈ query.filter, e.PlacedIn text
  grouping : ∀ list ∈ query.grouping, list.PlacedIn text
  ordering : ∀ list ∈ query.ordering, list.PlacedIn text
  asOf : ∀ e ∈ query.asOf, e.PlacedIn text
  modes : ∀ list ∈ query.modes, list.PlacedIn text

structure Select.PlacedIn (text : String) (query : Select) : Prop extends
    ClausesIn text query where
  span : query.span.PlacedIn text

theorem Span.placedIn_coverAll {text : String} {spans : List Span} (hspans : spans ≠ [])
    (hplaced : ∀ span ∈ spans, span.PlacedIn text) : (coverAll spans).PlacedIn text := by
  obtain ⟨first, rest, rfl⟩ := List.exists_cons_of_ne_nil hspans
  have hfirst := hplaced first List.mem_cons_self
  refine hfirst.cover ?_
  cases hlast : rest.getLast? with
  | none => exact hfirst
  | some last => exact hplaced last (List.mem_cons_of_mem _ (List.mem_of_getLast? hlast))

namespace Expr

variable {text : String}

theorem PlacedIn.span {e : Expr} (he : e.PlacedIn text) : e.span.PlacedIn text := by
  cases he <;> assumption

theorem PlacedIn.withMark {e : Expr} (he : e.PlacedIn text) {m : Mark}
    (hm : m.span.PlacedIn text) : (e.withMark m).PlacedIn text := by
  cases he <;> constructor <;> assumption

theorem PlacedIn.withSpan {e : Expr} (he : e.PlacedIn text) {span : Span}
    (hspan : span.PlacedIn text) : (e.withSpan span).PlacedIn text :=
  he.withMark hspan

theorem placedIn_compare {op : Comparison} {left : FieldRef} {right : Expr}
    (hleft : left.span.PlacedIn text) (hright : right.PlacedIn text) :
    (compare op left right).PlacedIn text :=
  .condition (hleft.cover hright.span) hleft hright

theorem placedIn_combine {op : Arithmetic} {left right : Expr} (hleft : left.PlacedIn text)
    (hright : right.PlacedIn text) : (combine op left right).PlacedIn text :=
  .arithmetic (hleft.span.cover hright.span) hleft hright

theorem placedIn_join {connective : Connective} {operands : List Expr} (hne : operands ≠ [])
    (hoperands : ∀ e ∈ operands, e.PlacedIn text) : (join connective operands).PlacedIn text := by
  refine .junction (Span.placedIn_coverAll (by simpa using hne) ?_) hoperands
  rw [List.forall_mem_map]
  exact fun e he => (hoperands e he).span

theorem placedIn_joined {connective : Connective} {operands : List Expr} (hne : operands ≠ [])
    (hoperands : ∀ e ∈ operands, e.PlacedIn text) :
    (joined connective operands).PlacedIn text := by
  unfold joined
  split
  · exact hoperands _ (by simp)
  · exact placedIn_join hne hoperands

theorem placedIn_apply {op : Leading} {e : Expr} (he : e.PlacedIn text) :
    (op.apply e).PlacedIn text := by
  cases op with
  | not => exact .not he.span he
  | ever => exact .ever he.span he
  | never => exact .not he.span (.ever he.span he)

end Expr

namespace Grammar

variable {text : String} {ts : List Token}

/-- What holds of everything read from tokens placed in the text holds of all items. -/
theorem Separated.forall_of_placedIn {α : Type} {item : List Token → α → Prop}
    {separator : Token → Bool} {as : List α} {P : α → Prop}
    (hitems : Separated item separator ts as) (hts : ∀ t ∈ ts, t.PlacedIn text)
    (hitem : ∀ {us a}, item us a → (∀ t ∈ us, t.PlacedIn text) → P a) :
    as ≠ [] ∧ ∀ a ∈ as, P a := by
  induction hitems with
  | one hfirst => exact ⟨by simp, by simpa using hitem hfirst hts⟩
  | more hfirst hseparator hothers ih =>
      rw [List.forall_mem_append, List.forall_mem_cons] at hts
      exact ⟨by simp, List.forall_mem_cons.mpr ⟨hitem hfirst hts.1, (ih hts.2.2).2⟩⟩

theorem placedIn_of_value {e : Expr} (he : Value ts e) (hts : ∀ t ∈ ts, t.PlacedIn text) :
    e.PlacedIn text := by
  cases he <;> constructor <;> exact (hts _ (by simp)).span

theorem placedIn_of_operation {op : Arithmetic} {right : Expr} (h : Operation ts op right)
    (hts : ∀ t ∈ ts, t.PlacedIn text) : right.PlacedIn text := by
  cases h with
  | spaced hop hspelled hright => exact placedIn_of_value hright (List.forall_mem_cons.mp hts).2
  | signed hop hkind hvalue => exact .number ((hts _ (by simp)).unsigned hkind _ _ hop hvalue)

theorem placedIn_of_expression {n : Nat} {e : Expr} (he : Expression n ts e)
    (hts : ∀ t ∈ ts, t.PlacedIn text) : e.PlacedIn text := by
  induction he with
  | value hvalue => exact placedIn_of_value hvalue hts
  | operation hleft hoperation ih =>
      rw [List.forall_mem_append] at hts
      exact Expr.placedIn_combine (ih hts.1) (placedIn_of_operation hoperation hts.2)

theorem placedIn_of_valueList {e : Expr} (he : ValueList ts e) (hts : ∀ t ∈ ts, t.PlacedIn text) :
    e.PlacedIn text := by
  cases he with
  | mk hopening hitems hclosing =>
      simp only [List.forall_mem_cons, List.forall_mem_append] at hts
      obtain ⟨hfirst, hinner, hlast, -⟩ := hts
      exact .list (hfirst.span.cover hlast.span)
        (hitems.forall_of_placedIn hinner placedIn_of_expression).2

theorem placedIn_of_field {f : FieldRef} (hf : Field anyName ts f)
    (hts : ∀ t ∈ ts, t.PlacedIn text) : f.span.PlacedIn text := by
  cases hf with
  | plain hname => exact (hts _ (by simp)).span
  | qualified hqualifier hdot hname =>
      exact (hts _ (by simp)).span.cover (hts _ (by simp)).span

theorem placedIn_of_rightSide {op : Comparison} {e : Expr} (he : RightSide anyName op ts e)
    (hts : ∀ t ∈ ts, t.PlacedIn text) : e.PlacedIn text := by
  cases he with
  | group hvalue => exact placedIn_of_value hvalue hts
  | path hvalue => exact placedIn_of_value hvalue hts
  | list hlist => exact placedIn_of_valueList hlist hts
  | field hop hfield =>
      have hspan := placedIn_of_field hfield hts
      exact .field hspan hspan
  | expression hop hexpression => exact placedIn_of_expression hexpression hts

theorem placedIn_of_condition {e : Expr} (he : Condition anyName ts e)
    (hts : ∀ t ∈ ts, t.PlacedIn text) : e.PlacedIn text := by
  obtain @⟨fieldTokens, left, words, ops, _, op, rightTokens, right, hleft, hleading, hcount, hop,
    hright⟩ := he
  simp only [List.forall_mem_append] at hts
  obtain ⟨hfirst, -, -, hlast⟩ := hts
  have hcompare : (Expr.compare op left right).PlacedIn text :=
    Expr.placedIn_compare (placedIn_of_field hleft hfirst) (placedIn_of_rightSide hright hlast)
  clear hop hcount hleading
  induction ops with
  | nil => exact hcompare
  | cons leading ops ih => exact Expr.placedIn_apply ih

theorem placedIn_of_disjunction {operand : List Token → Expr → Prop} {e : Expr}
    (he : Disjunction operand ts e) (hts : ∀ t ∈ ts, t.PlacedIn text)
    (hoperand : ∀ {us e}, operand us e → (∀ t ∈ us, t.PlacedIn text) → e.PlacedIn text) :
    e.PlacedIn text := by
  obtain ⟨operands, hoperands, rfl⟩ := he
  obtain ⟨hne, hall⟩ := hoperands.forall_of_placedIn hts (P := Expr.PlacedIn text) <| by
    rintro us _ ⟨operands, hoperands, rfl⟩ hus
    obtain ⟨hne, hall⟩ := hoperands.forall_of_placedIn hus hoperand
    exact Expr.placedIn_joined hne hall
  exact Expr.placedIn_joined hne hall

/-- What is read from tokens of a text is placed in it. -/
theorem placedIn_of_operand {depth : Nat} {e : Expr} (he : Operand anyName depth ts e)
    (hts : ∀ t ∈ ts, t.PlacedIn text) : e.PlacedIn text := by
  induction depth generalizing ts e with
  | zero => exact placedIn_of_condition he hts
  | succ depth ih =>
      cases he with
      | condition hcondition => exact placedIn_of_condition hcondition hts
      | leading hword hinner =>
          obtain ⟨hfirst, hothers⟩ := List.forall_mem_cons.mp hts
          have hplaced := ih hinner hothers
          exact (Expr.placedIn_apply hplaced).withSpan (hfirst.span.cover hplaced.span)
      | exclamation hmark hinner =>
          obtain ⟨hfirst, hothers⟩ := List.forall_mem_cons.mp hts
          have hplaced := ih hinner hothers
          exact .not (hfirst.span.cover hplaced.span) hplaced
      | parens hopening hinner hclosing =>
          simp only [List.forall_mem_cons, List.forall_mem_append] at hts
          obtain ⟨hfirst, hothers, hlast, -⟩ := hts
          have hplaced := placedIn_of_disjunction hinner hothers ih
          exact hplaced.withMark (hfirst.span.cover hlast.span)

theorem placedIn_of_orderedField {f : FieldRef} (hf : OrderedField anyName ts f)
    (hts : ∀ t ∈ ts, t.PlacedIn text) : f.span.PlacedIn text := by
  cases hf with
  | plain hfield => exact placedIn_of_field hfield hts
  | ascending hfield hword | descending hfield hword =>
      simp only [List.forall_mem_append, List.forall_mem_singleton] at hts
      exact (placedIn_of_field hfield hts.1).cover hts.2.span

theorem placedIn_of_fields {kind : FieldListKind} {list : FieldList}
    (hlist : Fields anyName kind ts list) (hts : ∀ t ∈ ts, t.PlacedIn text) :
    list.PlacedIn text := by
  obtain ⟨hfields⟩ := hlist
  obtain ⟨hne, hall⟩ := hfields.forall_of_placedIn hts
      (P := fun f : FieldRef => f.span.PlacedIn text) <| by
    intro us f hf hus
    cases kind with
    | order => exact placedIn_of_orderedField hf hus
    | _ => exact placedIn_of_field hf hus
  refine ⟨Span.placedIn_coverAll (by simpa using hne) ?_, hall⟩
  rw [List.forall_mem_map]
  exact hall

theorem placedIn_of_modes {list : ModeList} (hlist : Modes anyName ts list)
    (hts : ∀ t ∈ ts, t.PlacedIn text) : list.PlacedIn text := by
  cases hlist with
  | mk hopening hitems hclosing =>
      simp only [List.forall_mem_cons, List.forall_mem_append] at hts
      obtain ⟨hfirst, hinner, hlast, -⟩ := hts
      refine ⟨hfirst.span.cover hlast.span, (hitems.forall_of_placedIn hinner ?_).2⟩
      rintro us item ⟨hname⟩ hus
      exact (hus _ (by simp)).span

/-- A clause that is read is placed in the text. -/
theorem clausesIn_of_clause {query next : Select} (h : Clause anyName ts query next)
    (hts : ∀ t ∈ ts, t.PlacedIn text) (hquery : query.ClausesIn text) : next.ClausesIn text := by
  cases h with
  | table hword hfirst hname =>
      exact { hquery with table := by simpa using (hts _ (by simp)).span }
  | filter hword hfirst hfilter =>
      have hplaced := placedIn_of_disjunction hfilter (List.forall_mem_cons.mp hts).2
        placedIn_of_operand
      exact { hquery with filter := by simpa using hplaced }
  | grouping hword hby hfirst hlist =>
      simp only [List.forall_mem_cons] at hts
      exact { hquery with grouping := by simpa using placedIn_of_fields hlist hts.2.2 }
  | ordering hword hby hfirst hlist =>
      simp only [List.forall_mem_cons] at hts
      exact { hquery with ordering := by simpa using placedIn_of_fields hlist hts.2.2 }
  | asOf hword hfirst hvalue =>
      have hplaced := placedIn_of_value hvalue (List.forall_mem_cons.mp hts).2
      exact { hquery with asOf := by simpa using hplaced }
  | modes hword hfirst hmodes =>
      have hplaced := placedIn_of_modes hmodes (List.forall_mem_cons.mp hts).2
      exact { hquery with modes := by simpa using hplaced }

theorem clausesIn_of_clauses {query last : Select} (h : Clauses anyName ts query last)
    (hts : ∀ t ∈ ts, t.PlacedIn text) (hquery : query.ClausesIn text) : last.ClausesIn text := by
  induction h with
  | nil => exact hquery
  | cons hclause hothers ih =>
      rw [List.forall_mem_append] at hts
      exact ih hts.2 (clausesIn_of_clause hclause hts.1 hquery)

/-- A query is placed where its tokens are. -/
theorem placedIn_of_query {query : Select} (h : Query anyName ts query)
    (hts : ∀ t ∈ ts, t.PlacedIn text) : query.PlacedIn text := by
  obtain @⟨word, columnTokens, columns, clauseTokens, last, hword, hcolumns, hclauses⟩ := h
  have hall := hts
  simp only [List.forall_mem_cons, List.forall_mem_append] at hts
  obtain ⟨hfirst, hcolumnTokens, hclauseTokens⟩ := hts
  have hlist : ∀ list ∈ columns, list.PlacedIn text := by
    cases hcolumns with
    | all hstar => simp
    | fields hlist => simpa using placedIn_of_fields hlist hcolumnTokens
  have hstart : Select.ClausesIn text { columns } :=
    ⟨hlist, by simp, by simp, by simp, by simp, by simp, by simp⟩
  refine { clausesIn_of_clauses hclauses hclauseTokens hstart with span := ?_ }
  refine hfirst.span.cover ?_
  cases hlast : (word :: (columnTokens ++ clauseTokens)).getLast? with
  | none => exact hfirst.span
  | some last => exact (hall last (List.mem_of_getLast? hlast)).span

end Grammar

/-! ## Texts -/

/-- Digits follow the sign of a number. -/
theorem Scan.IsNumber.ne_nil_of_sign {sign : Char} {cs : List Char}
    (hnumber : IsNumber (sign :: cs)) (hsign : sign = '+' ∨ sign = '-') : cs ≠ [] := by
  rintro rfl
  generalize hlist : [sign] = list at hnumber
  cases hnumber with
  | unsigned hcs =>
      obtain ⟨hwhole, -, -⟩ := hcs
      obtain ⟨rfl, -⟩ := List.cons.inj hlist
      have hdigit := hwhole sign List.mem_cons_self
      obtain rfl | rfl := hsign <;> cases hdigit
  | signed _ hcs =>
      obtain ⟨-, rfl⟩ := List.cons.inj hlist
      cases hcs

/-- A lexical fault is at a place of the text. -/
theorem placedIn_of_tokens_eq_error {text : String} {cause : Fault} {place : Option Span}
    (htokens : tokens text = .error (.fault cause place)) :
    ∃ span, place = some span ∧ span.PlacedIn text := by
  obtain ⟨cause', span, heq, hstops⟩ :=
    (Scan.outcome_ofChars 0 text.toList).stopsAt (tokens_eq_error_iff.mp htokens)
  cases heq
  exact ⟨span, rfl, hstops.placed⟩

/-- The tokens of a text are placed in it. -/
theorem placedIn_of_tokens {text : String} {ts : List Token} (htokens : tokens text = .ok ts) :
    ∀ t ∈ ts, t.PlacedIn text := by
  intro t ht
  have hscanned := scanned_of_tokens htokens t ht
  obtain ⟨-, rfl⟩ := tokens_eq_ok_iff.mp htokens
  refine ⟨Scan.placedIn_of_mem_scan ht, fun hkind op digits hop hvalue => ?_⟩
  obtain ⟨before, lexeme, after, htext, hlexeme, hspan⟩ := Scan.exists_lexeme_of_mem_scan ht
  obtain ⟨sign, hsign, hrender⟩ :
      ∃ sign, (sign = '+' ∨ sign = '-') ∧ op.render.toList = [sign] := by
    cases op with
    | missing => exact absurd rfl hop
    | add => exact ⟨'+', by decide, rfl⟩
    | subtract => exact ⟨'-', by decide, rfl⟩
  have hnumber : Scan.IsNumber t.value.toList := by
    rw [Token.Scanned, hkind] at hscanned
    exact hscanned
  have hchars : t.value.toList = sign :: digits.toList := by
    rw [hvalue, String.toList_append, hrender]
    rfl
  have hdigits : digits.toList ≠ [] := (hchars ▸ hnumber).ne_nil_of_sign hsign
  have hsize : sign.utf8Size = 1 := by obtain rfl | rfl := hsign <;> rfl
  rw [← hlexeme.number hkind, hchars] at htext hspan
  have htext' : text.toList = (before ++ [sign]) ++ (digits.toList ++ after) := by
    rw [htext]
    simp
  have hplaced := Span.placedIn_of_append htext' hdigits
  rw [Scan.byteLength_append, Scan.byteLength_cons, hsize, Nat.add_assoc] at hplaced
  rw [hspan, Scan.byteLength_cons, hsize]
  exact hplaced

theorem Select.placedIn_of_parse {text : String} {query : Select}
    (hparse : parse text = .ok query) : query.PlacedIn text := by
  obtain ⟨ts, htokens, hread⟩ := bind_eq_ok_iff.mp hparse
  exact Grammar.placedIn_of_query (Grammar.query_of_ofTokens (solid_of_tokens htokens) hread)
    (placedIn_of_tokens htokens)

end TrackerQuery

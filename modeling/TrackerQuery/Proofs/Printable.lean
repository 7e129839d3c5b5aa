import TrackerQuery.Expr.Print
import TrackerQuery.Proofs.GrammarSound
import TrackerQuery.Proofs.Scanned

/-!
# Printable queries

The trees whose printed text reads back as themselves: names fit between brackets,
numbers are spelled as scanning takes them, nothing is resolved yet, and a boolean
part that holds weaker than its place allows was written in parentheses.  Whatever
the tokens of a text derive is such a tree.
-/

namespace TrackerQuery

/-- An unresolved field with names that fit between brackets. -/
structure FieldRef.Printable (field : FieldRef) : Prop where
  name : Scan.IsBracketable field.name.toList
  qualifier : ∀ q ∈ field.qualifier, Scan.IsBracketable q.toList
  unresolved : field.id = none ∧ field.type = .unknown

namespace Expr

inductive PrintableValue : Expr → Prop
  | string {span value} : PrintableValue (.string { span } value)
  | number {span value} (hvalue : Scan.IsNumber value.toList) :
      PrintableValue (.number { span } value)
  | boolean {span value} : PrintableValue (.boolean { span } value)
  | var {span name} (hname : ∀ c ∈ name.toList, Text.isAlphanumeric c = true) :
      PrintableValue (.var { span } { name })

/-- Values with at most `n` operators between them. -/
inductive PrintableSum : (n : Nat) → Expr → Prop
  | value {n e} (he : PrintableValue e) : PrintableSum n e
  | arithmetic {n span op left right} (hop : op ≠ .missing) (hleft : PrintableSum n left)
      (hright : PrintableValue right) :
      PrintableSum (n + 1) (.arithmetic { span } op left right .unknown)

inductive PrintableRight : Comparison → Expr → Prop
  | value {op e} (hop : op = .inGroup ∨ op = .under) (he : PrintableValue e) : PrintableRight op e
  | list {span items} (hitems : items ≠ []) (hall : ∀ e ∈ items, PrintableSum maxNesting e) :
      PrintableRight .oneOf (.list { span } items)
  | field {op span field} (hop : Grammar.takesOperand op = true) (hfield : field.Printable)
      (hdirection : field.direction = .unspecified) : PrintableRight op (.field { span } field)
  | sum {op e} (hop : Grammar.takesOperand op = true) (he : PrintableSum maxNesting e) :
      PrintableRight op e

/-- The part stands in parentheses or holds at least as strongly as `limit`. -/
def Fits (limit : Precedence) (e : Expr) : Prop :=
  e.parens = true ∨ e.precedence.weaker limit = false

theorem Fits.mono {a b : Precedence} {e : Expr} (he : e.Fits a) (hab : a.rank ≤ b.rank) :
    e.Fits b := by
  refine he.imp_right fun hweaker => ?_
  simp only [Precedence.weaker, decide_eq_false_iff_not, Nat.not_lt] at hweaker ⊢
  omega

def operandLimit : Connective → Precedence
  | .and => .unary
  | .or => .and

inductive Printable : Expr → Prop
  | condition {m op left right} (hleft : left.Printable)
      (hdirection : left.direction = .unspecified) (hop : op ≠ .missing)
      (hright : PrintableRight op right) : Printable (.condition m op left right)
  | not {m e} (he : Printable e) (hfits : e.Fits .unary) : Printable (.not m e)
  | ever {m e} (he : Printable e) (hfits : e.Fits .unary) : Printable (.ever m e)
  | junction {m connective es} (hmany : 2 ≤ es.length) (hall : ∀ e ∈ es, Printable e)
      (hfits : ∀ e ∈ es, e.Fits (operandLimit connective)) :
      Printable (.junction m connective es)

theorem Printable.withMark {e : Expr} (he : e.Printable) (m : Mark) : (e.withMark m).Printable := by
  cases he with
  | condition hleft hdirection hop hright => exact .condition hleft hdirection hop hright
  | not he hfits => exact .not he hfits
  | ever he hfits => exact .ever he hfits
  | junction hmany hall hfits => exact .junction hmany hall hfits

end Expr

/-- A nonempty list of fields; only an ordering has directions. -/
structure FieldList.Printable (kind : FieldListKind) (list : FieldList) : Prop where
  kind_eq : list.kind = kind
  nonempty : list.fields ≠ []
  fields : ∀ field ∈ list.fields, field.Printable
  directions : kind ≠ .order → ∀ field ∈ list.fields, field.direction = .unspecified

structure Select.Printable (query : Select) : Prop where
  columns : ∀ list ∈ query.columns, list.Printable .select
  table : ∀ table ∈ query.table, Scan.IsBracketable table.name.toList ∧ table.resolved = none
  filter : ∀ e ∈ query.filter, e.Printable
  grouping : ∀ list ∈ query.grouping, list.Printable .group
  ordering : ∀ list ∈ query.ordering, list.Printable .order
  asOf : ∀ e ∈ query.asOf, e.PrintableValue
  modes : ∀ modes ∈ query.modes,
    modes.items ≠ [] ∧ ∀ item ∈ modes.items, Scan.IsBracketable item.name.toList

/-! ## Derived trees -/

namespace Grammar

theorem isBracketable_of_anyName {t : Token} (hname : anyName t) (ht : t.Scanned) :
    Scan.IsBracketable t.value.toList := by
  simp only [anyName, Token.isName, Bool.or_eq_true, beq_iff_eq] at hname
  obtain hkind | hkind := hname
  · simp only [Token.Scanned, hkind, Scan.IsValueOf] at ht
    exact ht.1.isBracketable
  · simpa only [Token.Scanned, hkind, Scan.IsValueOf] using ht

theorem Value.printable {ts : List Token} {e : Expr} (h : Value ts e)
    (hts : ∀ t ∈ ts, t.Scanned) : e.PrintableValue := by
  cases h with
  | @number t hkind =>
      have ht := hts t (by simp)
      simp only [Token.Scanned, hkind, Scan.IsValueOf] at ht
      exact .number ht
  | string hkind => exact .string
  | @var t hkind =>
      have ht := hts t (by simp)
      simp only [Token.Scanned, hkind, Scan.IsValueOf] at ht
      exact .var ht
  | boolean hkind => exact .boolean

/-- What is left of a number without its sign is a number. -/
theorem isNumber_of_signed {op : Arithmetic} (hop : op ≠ .missing) {digits : String}
    (hnumber : Scan.IsNumber (op.render ++ digits).toList) : Scan.IsNumber digits.toList := by
  obtain ⟨sign, hsign, hrender⟩ :
      ∃ sign, Decimal.isDigit sign = false ∧ op.render.toList = [sign] := by
    cases op with
    | missing => exact absurd rfl hop
    | add => exact ⟨'+', by decide, rfl⟩
    | subtract => exact ⟨'-', by decide, rfl⟩
  rw [String.toList_append, hrender, List.singleton_append] at hnumber
  cases hnumber with
  | unsigned hcs =>
      have hdigit : Decimal.isDigit sign = true := hcs.startsWithDigit []
      rw [hsign] at hdigit
      cases hdigit
  | signed _ hcs => exact .unsigned hcs

theorem Operation.printable {ts : List Token} {op : Arithmetic} {right : Expr}
    (h : Operation ts op right) (hts : ∀ t ∈ ts, t.Scanned) :
    op ≠ .missing ∧ right.PrintableValue := by
  cases h with
  | spaced hop hspelled hright => exact ⟨hop, hright.printable fun t ht => hts t (by simp [ht])⟩
  | @signed t op digits hop hkind hvalue =>
      have ht := hts t (by simp)
      simp only [Token.Scanned, hkind, Scan.IsValueOf, hvalue] at ht
      exact ⟨hop, .number (isNumber_of_signed hop ht)⟩

theorem Expression.printable {n : Nat} {ts : List Token} {e : Expr} (h : Expression n ts e)
    (hts : ∀ t ∈ ts, t.Scanned) : e.PrintableSum n := by
  induction h with
  | value hvalue => exact .value (hvalue.printable hts)
  | operation hleft hoperation ih =>
      obtain ⟨hop, hright⟩ := hoperation.printable fun t ht => hts t (by simp [ht])
      exact .arithmetic hop (ih fun t ht => hts t (by simp [ht])) hright

theorem Separated.forall_mem {α : Type} {item : List Token → α → Prop} {separator : Token → Bool}
    {ts : List Token} {as : List α} (h : Separated item separator ts as) :
    ∀ a ∈ as, ∃ us, (∀ t ∈ us, t ∈ ts) ∧ item us a := by
  induction h with
  | @one ts a hitem =>
      intro b hb
      obtain rfl := List.mem_singleton.mp hb
      exact ⟨ts, fun t ht => ht, hitem⟩
  | @more ts a t us as hitem hseparator hothers ih =>
      intro b hb
      obtain rfl | hb := List.mem_cons.mp hb
      · exact ⟨ts, fun t ht => by simp [ht], hitem⟩
      · obtain ⟨vs, hvs, hitem⟩ := ih b hb
        exact ⟨vs, fun t ht => by simp [hvs t ht], hitem⟩

theorem Separated.ne_nil {α : Type} {item : List Token → α → Prop} {separator : Token → Bool}
    {ts : List Token} {as : List α} (h : Separated item separator ts as) : as ≠ [] := by
  cases h <;> simp

theorem ValueList.printable {ts : List Token} {e : Expr} (h : ValueList ts e)
    (hts : ∀ t ∈ ts, t.Scanned) : e.PrintableRight .oneOf := by
  obtain ⟨hopening, hitems, hclosing⟩ := h
  refine .list hitems.ne_nil fun item hitem => ?_
  obtain ⟨us, hus, hexpression⟩ := hitems.forall_mem item hitem
  exact hexpression.printable fun t ht => hts t (by simp [hus t ht])

theorem Field.printable {ts : List Token} {field : FieldRef} (h : Field anyName ts field)
    (hts : ∀ t ∈ ts, t.Scanned) : field.Printable ∧ field.direction = .unspecified := by
  cases h with
  | @plain t hname =>
      exact ⟨⟨isBracketable_of_anyName hname (hts t (by simp)), by simp, rfl, rfl⟩, rfl⟩
  | @qualified q dot t hqualifier hdot hname =>
      refine ⟨⟨isBracketable_of_anyName hname (hts t (by simp)), ?_, rfl, rfl⟩, rfl⟩
      intro name hname
      cases hname
      exact isBracketable_of_anyName hqualifier (hts q (by simp))

theorem RightSide.printable {op : Comparison} {ts : List Token} {e : Expr}
    (h : RightSide anyName op ts e) (hts : ∀ t ∈ ts, t.Scanned) : e.PrintableRight op := by
  cases h with
  | group hvalue => exact .value (.inl rfl) (hvalue.printable hts)
  | path hvalue => exact .value (.inr rfl) (hvalue.printable hts)
  | list hlist => exact hlist.printable hts
  | field hop hfield =>
      obtain ⟨hother, hdirection⟩ := hfield.printable hts
      exact .field hop hother hdirection
  | expression hop hexpression => exact .sum hop (hexpression.printable hts)

theorem Spells.ne_missing {text : String} {op : Comparison} (h : Spells text op) :
    op ≠ .missing := by
  have hspelled : ∀ entry ∈ Comparison.spellings, entry.2 ≠ .missing := by decide
  obtain ⟨spelling, hspelling, -⟩ := h
  exact hspelled _ hspelling

theorem Operator.ne_missing {afterLeading : Bool} {ts : List Token} {op : Comparison}
    (h : Operator afterLeading ts op) : op ≠ .missing := by
  cases h with
  | omitted => decide
  | single hfirst =>
      obtain ⟨-, hspells⟩ | ⟨-, hspells⟩ := hfirst <;> exact hspells.ne_missing
  | inGroup hfirst hsecond => decide
  | containsWords hfirst hsecond => decide

/-- Leading operators hold strongly enough to stand anywhere. -/
theorem printable_apply {e : Expr} (he : e.Printable) (hfits : e.Fits .unary)
    (leading : Expr.Leading) :
    (leading.apply e).Printable ∧ (leading.apply e).Fits .unary := by
  cases leading with
  | not => exact ⟨.not he hfits, .inr rfl⟩
  | ever => exact ⟨.ever he hfits, .inr rfl⟩
  | never => exact ⟨.not (.ever he hfits) (.inr rfl), .inr rfl⟩

theorem printable_foldr_apply {e : Expr} (he : e.Printable) (hfits : e.Fits .unary)
    (ops : List Expr.Leading) :
    (ops.foldr (fun leading e => leading.apply e) e).Printable ∧
      (ops.foldr (fun leading e => leading.apply e) e).Fits .unary := by
  induction ops with
  | nil => exact ⟨he, hfits⟩
  | cons leading ops ih => exact printable_apply ih.1 ih.2 leading

theorem printable_withSpan_apply {e : Expr} (he : e.Printable) (hfits : e.Fits .unary)
    (leading : Expr.Leading) (span : Span) :
    ((leading.apply e).withSpan span).Printable ∧ ((leading.apply e).withSpan span).Fits .unary :=
  ⟨(printable_apply he hfits leading).1.withMark _, .inr (by cases leading <;> rfl)⟩

theorem Condition.printable {ts : List Token} {e : Expr} (h : Condition anyName ts e)
    (hts : ∀ t ∈ ts, t.Scanned) : e.Printable ∧ e.Fits .unary := by
  obtain @⟨ts, left, us, ops, vs, op, ws, right, hleft, hleading, hcount, hop, hright⟩ := h
  obtain ⟨hfield, hdirection⟩ := hleft.printable fun t ht => hts t (by simp [ht])
  have hright := hright.printable fun t ht => hts t (by simp [ht])
  exact printable_foldr_apply (.condition hfield hdirection hop.ne_missing hright) (.inr rfl) ops

theorem printable_joined {connective : Connective} {es : List Expr} (hne : es ≠ [])
    (hall : ∀ e ∈ es, e.Printable ∧ e.Fits (Expr.operandLimit connective)) :
    (Expr.joined connective es).Printable ∧
      (Expr.joined connective es).Fits (Expr.limit connective) := by
  match es, hne with
  | [e], _ =>
      obtain ⟨he, hfits⟩ := hall e (by simp)
      exact ⟨he, hfits.mono (by cases connective <;> decide)⟩
  | e :: e' :: es, _ =>
      refine ⟨.junction (by simp) (fun e he => (hall e he).1) fun e he => (hall e he).2, .inr ?_⟩
      cases connective <;> rfl

theorem Conjunction.printable {operand : List Token → Expr → Prop} {ts : List Token} {e : Expr}
    (h : Conjunction operand ts e)
    (hoperand : ∀ us e, (∀ t ∈ us, t ∈ ts) → operand us e → e.Printable ∧ e.Fits .unary) :
    e.Printable ∧ e.Fits .and := by
  obtain ⟨operands, hoperands, rfl⟩ := h
  refine printable_joined hoperands.ne_nil fun e he => ?_
  obtain ⟨us, hus, hpart⟩ := hoperands.forall_mem e he
  exact hoperand us e hus hpart

theorem Disjunction.printable {operand : List Token → Expr → Prop} {ts : List Token} {e : Expr}
    (h : Disjunction operand ts e)
    (hoperand : ∀ us e, (∀ t ∈ us, t ∈ ts) → operand us e → e.Printable ∧ e.Fits .unary) :
    e.Printable := by
  obtain ⟨operands, hoperands, rfl⟩ := h
  refine (printable_joined hoperands.ne_nil fun e he => ?_).1
  obtain ⟨us, hus, hpart⟩ := hoperands.forall_mem e he
  exact Conjunction.printable hpart fun vs e hvs => hoperand vs e fun t ht => hus t (hvs t ht)

/-- Operands that are read can be printed and read back. -/
theorem Operand.printable {depth : Nat} {ts : List Token} {e : Expr}
    (h : Operand anyName depth ts e) (hts : ∀ t ∈ ts, t.Scanned) :
    e.Printable ∧ e.Fits .unary := by
  induction depth generalizing ts e with
  | zero => exact Condition.printable h hts
  | succ depth ih =>
      cases h with
      | condition hcondition => exact hcondition.printable hts
      | @leading t op ts e hword hinner =>
          obtain ⟨he, hfits⟩ := ih hinner fun t ht => hts t (by simp [ht])
          exact printable_withSpan_apply he hfits op _
      | @exclamation t ts e hmark hinner =>
          obtain ⟨he, hfits⟩ := ih hinner fun t ht => hts t (by simp [ht])
          exact printable_withSpan_apply he hfits .not _
      | @parens opening ts e closing hopening hinner hclosing =>
          have he := hinner.printable fun us e hus hpart =>
            ih hpart fun t ht => hts t (by simp [hus t ht])
          exact ⟨he.withMark _, .inl (by cases e <;> rfl)⟩

/-- Lists of fields that are read can be printed and read back. -/
theorem Fields.printable {kind : FieldListKind} {ts : List Token} {list : FieldList}
    (h : Fields anyName kind ts list) (hts : ∀ t ∈ ts, t.Scanned) : list.Printable kind := by
  obtain ⟨hfields⟩ := h
  have hitem : ∀ field us, (∀ t ∈ us, t ∈ ts) → ListItem anyName kind us field →
      field.Printable ∧ (kind ≠ .order → field.direction = .unspecified) := by
    intro field us hus hfield
    have hus : ∀ t ∈ us, t.Scanned := fun t ht => hts t (hus t ht)
    cases kind with
    | select => exact (Field.printable hfield hus).imp_right fun hdirection _ => hdirection
    | group => exact (Field.printable hfield hus).imp_right fun hdirection _ => hdirection
    | order =>
        refine ⟨?_, by simp⟩
        cases hfield with
        | plain hfield => exact (hfield.printable hus).1
        | ascending hfield hword =>
            obtain ⟨⟨hname, hqualifier, hunresolved⟩, -⟩ :=
              hfield.printable fun t ht => hus t (by simp [ht])
            exact ⟨hname, hqualifier, hunresolved⟩
        | descending hfield hword =>
            obtain ⟨⟨hname, hqualifier, hunresolved⟩, -⟩ :=
              hfield.printable fun t ht => hus t (by simp [ht])
            exact ⟨hname, hqualifier, hunresolved⟩
  refine ⟨rfl, hfields.ne_nil, fun field hfield => ?_, fun hkind field hfield => ?_⟩
  · obtain ⟨us, hus, hderived⟩ := hfields.forall_mem field hfield
    exact (hitem field us hus hderived).1
  · obtain ⟨us, hus, hderived⟩ := hfields.forall_mem field hfield
    exact (hitem field us hus hderived).2 hkind

/-- A clause that is added to a printable query leaves it printable. -/
theorem Clause.printable {ts : List Token} {query next : Select} (h : Clause anyName ts query next)
    (hts : ∀ t ∈ ts, t.Scanned) (hquery : query.Printable) : next.Printable := by
  cases h with
  | @table word t query hword hfirst hname =>
      refine { hquery with table := fun table htable => ?_ }
      cases htable
      exact ⟨isBracketable_of_anyName hname (hts t (by simp)), rfl⟩
  | filter hword hfirst hfilter =>
      refine { hquery with filter := fun e he => ?_ }
      cases he
      exact Disjunction.printable hfilter fun us e hus hoperand =>
        Operand.printable hoperand fun t ht => hts t (by simp [hus t ht])
  | grouping hword hby hfirst hlist =>
      refine { hquery with grouping := fun list hmem => ?_ }
      cases hmem
      exact hlist.printable fun t ht => hts t (by simp [ht])
  | ordering hword hby hfirst hlist =>
      refine { hquery with ordering := fun list hmem => ?_ }
      cases hmem
      exact hlist.printable fun t ht => hts t (by simp [ht])
  | asOf hword hfirst hvalue =>
      refine { hquery with asOf := fun e he => ?_ }
      cases he
      exact hvalue.printable fun t ht => hts t (by simp [ht])
  | modes hword hfirst hmodes =>
      refine { hquery with modes := fun modes hmem => ?_ }
      cases hmem
      obtain ⟨hopening, hitems, hclosing⟩ := hmodes
      refine ⟨hitems.ne_nil, fun item hitem => ?_⟩
      obtain ⟨us, hus, hname⟩ := hitems.forall_mem item hitem
      obtain ⟨hname⟩ := hname
      exact isBracketable_of_anyName hname (hts _ (by simp [hus]))

theorem Clauses.printable {ts : List Token} {query last : Select}
    (h : Clauses anyName ts query last) (hts : ∀ t ∈ ts, t.Scanned) (hquery : query.Printable) :
    last.Printable := by
  induction h with
  | nil => exact hquery
  | cons hclause hothers ih =>
      refine ih (fun t ht => hts t (by simp [ht])) ?_
      exact hclause.printable (fun t ht => hts t (by simp [ht])) hquery

theorem Query.printable {ts : List Token} {query : Select} (h : Query anyName ts query)
    (hts : ∀ t ∈ ts, t.Scanned) : query.Printable := by
  obtain @⟨word, ts, columns, us, query, hword, hcolumns, hclauses⟩ := h
  have hstart : Select.Printable { columns } := by
    refine ⟨fun list hmem => ?_, by simp, by simp, by simp, by simp, by simp, by simp⟩
    cases hcolumns with
    | all hstar => cases hmem
    | fields hlist =>
        cases hmem
        exact hlist.printable fun t ht => hts t (by simp [ht])
  exact { hclauses.printable (fun t ht => hts t (by simp [ht])) hstart with }

end Grammar

end TrackerQuery

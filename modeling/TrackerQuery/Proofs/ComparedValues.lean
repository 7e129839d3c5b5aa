import TrackerQuery.Proofs.NestedSpans

/-!
# Compared values

What a filter compares its fields with stands on the right of a comparison or in a list.  Each
such value is derived from tokens in a row, and its span tells which tokens these are.
-/

namespace TrackerQuery

namespace Expr

/-- The filter compares a field with the value, or with a list in which the value is an item. -/
inductive ComparedIn (value : Expr) : (filter : Expr) → Prop
  | right {m op left} : ComparedIn value (.condition m op left value)
  | item {m op left listMark items} (hvalue : value ∈ items) :
      ComparedIn value (.condition m op left (.list listMark items))
  | junction {m connective operands operand} (hoperand : operand ∈ operands)
      (h : ComparedIn value operand) : ComparedIn value (.junction m connective operands)
  | not {m operand} (h : ComparedIn value operand) : ComparedIn value (.not m operand)
  | ever {m operand} (h : ComparedIn value operand) : ComparedIn value (.ever m operand)

namespace ComparedIn

variable {value e : Expr}

theorem of_compare {op : Comparison} {left : FieldRef} {right : Expr}
    (h : value.ComparedIn (compare op left right)) :
    value = right ∨ ∃ m items, right = .list m items ∧ value ∈ items := by
  cases h with
  | right => exact .inl rfl
  | item hvalue => exact .inr ⟨_, _, rfl, hvalue⟩

theorem of_joined {connective : Connective} {operands : List Expr}
    (h : value.ComparedIn (joined connective operands)) :
    ∃ operand ∈ operands, value.ComparedIn operand := by
  unfold joined at h
  split at h
  · exact ⟨_, List.mem_singleton_self _, h⟩
  · cases h with
    | junction hoperand h => exact ⟨_, hoperand, h⟩

theorem of_apply {op : Leading} (h : value.ComparedIn (op.apply e)) : value.ComparedIn e := by
  cases op with
  | not =>
      cases h with
      | not h => exact h
  | ever =>
      cases h with
      | ever h => exact h
  | never =>
      cases h with
      | not h =>
          cases h with
          | ever h => exact h

theorem of_withMark {m : Mark} (h : value.ComparedIn (e.withMark m)) : value.ComparedIn e := by
  cases e with
  | condition m op left right =>
      cases h with
      | right => exact .right
      | item hvalue => exact .item hvalue
  | junction m connective operands =>
      cases h with
      | junction hoperand h => exact .junction hoperand h
  | not m operand =>
      cases h with
      | not h => exact .not h
  | ever m operand =>
      cases h with
      | ever h => exact .ever h
  | _ => cases h

end ComparedIn

end Expr

/-- The value is compared with a field in the filter of the query. -/
def Select.Compares (query : Select) (value : Expr) : Prop :=
  ∃ filter ∈ query.filter, value.ComparedIn filter

/-! ## Where a value is derived -/

namespace Grammar

variable {named : Token → Prop} {ts : List Token} {value : Expr}

/-- The tokens are derived as what can stand on the right of a comparison or in a list. -/
def Compared (named : Token → Prop) (ts : List Token) (value : Expr) : Prop :=
  Expression maxNesting ts value ∨ ∃ op, RightSide named op ts value

theorem Separated.exists_infix {α : Type} {item : List Token → α → Prop}
    {separator : Token → Bool} {as : List α} (h : Separated item separator ts as) {a : α}
    (ha : a ∈ as) : ∃ us, us <:+: ts ∧ item us a := by
  induction h with
  | one hitem =>
      rw [List.mem_singleton] at ha
      subst ha
      exact ⟨_, List.infix_refl _, hitem⟩
  | @more us b t vs bs hitem hseparator hothers ih =>
      obtain rfl | ha := List.mem_cons.mp ha
      · exact ⟨us, (List.prefix_append us _).isInfix, hitem⟩
      · obtain ⟨ws, hws, ha⟩ := ih ha
        exact ⟨ws, hws.trans ⟨us ++ [t], [], by simp⟩, ha⟩

theorem Expression.ne_list {n : Nat} {m : Mark} {items : List Expr} :
    ¬Expression n ts (.list m items) := by
  rintro (⟨⟨⟩⟩ | _)

theorem exists_compared_of_rightSide {op : Comparison} {right : Expr}
    (h : RightSide named op ts right)
    (hvalue : value = right ∨ ∃ m items, right = .list m items ∧ value ∈ items) :
    ∃ us, us <:+: ts ∧ Compared named us value := by
  obtain rfl | ⟨m, items, rfl, hmem⟩ := hvalue
  · exact ⟨ts, List.infix_refl ts, .inr ⟨op, h⟩⟩
  · cases h with
    | group hvalue => cases hvalue
    | path hvalue => cases hvalue
    | list hlist =>
        cases hlist with
        | @mk opening us items closing hopening hitems hclosing =>
            obtain ⟨vs, hvs, hvalue⟩ := hitems.exists_infix hmem
            refine ⟨vs, hvs.trans ?_, .inl hvalue⟩
            exact ⟨[opening], [closing], by simp⟩
    | expression hop hexpression => exact absurd hexpression Expression.ne_list

theorem exists_compared_of_condition {e : Expr} (h : Condition named ts e)
    (hvalue : value.ComparedIn e) : ∃ us, us <:+: ts ∧ Compared named us value := by
  obtain @⟨fieldTokens, left, words, ops, operator, op, rightTokens, right, hleft, hleading, hcount,
    hop, hright⟩ := h
  have hcompare : value.ComparedIn (Expr.compare op left right) := by
    clear hop hcount hleading
    induction ops with
    | nil => exact hvalue
    | cons leading ops ih => exact ih hvalue.of_apply
  obtain ⟨us, hus, hvalue⟩ := exists_compared_of_rightSide hright hcompare.of_compare
  refine ⟨us, hus.trans ?_, hvalue⟩
  exact ⟨fieldTokens ++ (words ++ operator), [], by simp⟩

theorem exists_compared_of_disjunction {operand : List Token → Expr → Prop} {e : Expr}
    (h : Disjunction operand ts e) (hvalue : value.ComparedIn e)
    (hoperand : ∀ {us e}, operand us e → value.ComparedIn e →
      ∃ vs, vs <:+: us ∧ Compared named vs value) :
    ∃ us, us <:+: ts ∧ Compared named us value := by
  obtain ⟨disjuncts, hdisjuncts, rfl⟩ := h
  obtain ⟨disjunct, hdisjunct, hvalue⟩ := hvalue.of_joined
  obtain ⟨us, hus, conjuncts, hconjuncts, rfl⟩ := hdisjuncts.exists_infix hdisjunct
  obtain ⟨conjunct, hconjunct, hvalue⟩ := hvalue.of_joined
  obtain ⟨vs, hvs, hread⟩ := hconjuncts.exists_infix hconjunct
  obtain ⟨ws, hws, hvalue⟩ := hoperand hread hvalue
  exact ⟨ws, hws.trans (hvs.trans hus), hvalue⟩

theorem exists_compared_of_operand {depth : Nat} {e : Expr} (h : Operand named depth ts e)
    (hvalue : value.ComparedIn e) : ∃ us, us <:+: ts ∧ Compared named us value := by
  induction depth generalizing ts e with
  | zero => exact exists_compared_of_condition h hvalue
  | succ depth ih =>
      cases h with
      | condition hcondition => exact exists_compared_of_condition hcondition hvalue
      | @leading t op us e hword hinner =>
          obtain ⟨vs, hvs, hvalue⟩ := ih hinner hvalue.of_withMark.of_apply
          exact ⟨vs, hvs.trans (List.suffix_cons t us).isInfix, hvalue⟩
      | @exclamation t us e hmark hinner =>
          have hvalue : value.ComparedIn (Expr.Leading.apply e .not) := hvalue.of_withMark
          obtain ⟨vs, hvs, hvalue⟩ := ih hinner hvalue.of_apply
          exact ⟨vs, hvs.trans (List.suffix_cons t us).isInfix, hvalue⟩
      | @parens opening us e closing hopening hinner hclosing =>
          obtain ⟨vs, hvs, hvalue⟩ :=
            exists_compared_of_disjunction hinner hvalue.of_withMark fun h hvalue => ih h hvalue
          exact ⟨vs, hvs.trans ⟨[opening], [closing], by simp⟩, hvalue⟩

/-- A compared value is derived from tokens in a row. -/
theorem exists_compared_of_query {query : Select} (h : Query named ts query)
    (hvalue : query.Compares value) : ∃ us, us <:+: ts ∧ Compared named us value := by
  obtain ⟨filter, hfilter, hvalue⟩ := hvalue
  obtain ⟨us, hus, hread⟩ := h.exists_filter hfilter
  obtain ⟨vs, hvs, hvalue⟩ := exists_compared_of_disjunction hread hvalue
    fun h hvalue => exists_compared_of_operand h hvalue
  exact ⟨vs, hvs.trans hus, hvalue⟩

end Grammar

/-! ## Which tokens a span covers -/

/-- The span starts with the first of the tokens and ends with the last of them. -/
structure Span.Reaches (span : Span) (ts : List Token) : Prop where
  first : ∃ t ∈ ts.head?, span.start = t.span.start
  last : ∃ t ∈ ts.getLast?, span.stop = t.span.stop

section Reaches

open TrackerQuery.Token (Ordered)

variable {ts us : List Token} {span : Span}

theorem Span.reaches_token (t : Token) : t.span.Reaches [t] :=
  ⟨⟨t, rfl, rfl⟩, ⟨t, rfl, rfl⟩⟩

theorem Span.Reaches.cover {right : Span} (h : span.Reaches ts)
    (hlast : ∃ t ∈ us.getLast?, right.stop = t.span.stop) (horder : InOrder [span, right]) :
    (span.cover right).Reaches (ts ++ us) := by
  obtain ⟨t, ht, hstart⟩ := h.first
  obtain ⟨u, hu, hstop⟩ := hlast
  have hspan : span.start ≤ span.stop := horder.forward _ (by simp)
  have hright : right.start ≤ right.stop := horder.forward _ (by simp)
  have hapart : span.stop ≤ right.start := List.rel_of_pairwise_cons horder.apart (by simp)
  refine ⟨⟨t, ?_, ?_⟩, ⟨u, ?_, ?_⟩⟩
  · rw [Option.mem_def] at ht ⊢
    rw [List.head?_append, ht, Option.some_or]
  · rw [← hstart]
    exact Nat.min_eq_left (by omega)
  · rw [Option.mem_def] at hu ⊢
    rw [List.getLast?_append, hu, Option.some_or]
  · rw [← hstop]
    exact Nat.max_eq_right (by omega)

/-- Of tokens in order, those that lie in a span stand in a row. -/
theorem Token.Ordered.filter_eq {before after : List Token}
    (hts : Ordered (before ++ us ++ after)) (hbefore : ∀ t ∈ before, t.span.stop ≤ span.start)
    (hinside : ∀ t ∈ us, span.start ≤ t.span.start ∧ t.span.stop ≤ span.stop)
    (hafter : ∀ t ∈ after, span.stop ≤ t.span.start) :
    (before ++ us ++ after).filter
      (fun t => span.start ≤ t.span.start ∧ t.span.stop ≤ span.stop) = us := by
  have hleft : ∀ t ∈ before, ¬(span.start ≤ t.span.start ∧ t.span.stop ≤ span.stop) := by
    rintro t ht ⟨hle, -⟩
    have hnonempty := hts.left.left.nonempty t ht
    have hstop := hbefore t ht
    omega
  have hright : ∀ t ∈ after, ¬(span.start ≤ t.span.start ∧ t.span.stop ≤ span.stop) := by
    rintro t ht ⟨-, hle⟩
    have hnonempty := hts.right.nonempty t ht
    have hstart := hafter t ht
    omega
  rw [List.filter_append, List.filter_append, List.filter_eq_nil_iff.mpr (by simpa using hleft),
    List.filter_eq_self.mpr (by simpa using hinside),
    List.filter_eq_nil_iff.mpr (by simpa using hright), List.nil_append, List.append_nil]

/-- The tokens in a row that a span reaches over are those that lie in it. -/
theorem Span.Reaches.eq_filter (h : span.Reaches us) (hts : Ordered ts) (hus : us <:+: ts) :
    us = ts.filter fun t => span.start ≤ t.span.start ∧ t.span.stop ≤ span.stop := by
  obtain ⟨before, after, rfl⟩ := hus
  obtain ⟨first, hfirst, hstart⟩ := h.first
  obtain ⟨last, hlast, hstop⟩ := h.last
  have hspans := hts.left.right.inOrder
  refine (hts.filter_eq (fun t ht => ?_) (fun t ht => ?_) fun t ht => ?_).symm
  · rw [hstart]
    exact hts.left.before ht (List.mem_of_head? hfirst)
  · have hspan : t.span ∈ us.map Token.span := List.mem_map_of_mem ht
    rw [hstart, hstop]
    constructor
    · obtain ⟨rest, rfl⟩ := List.head?_eq_some_iff.mp hfirst
      exact hspans.start_le hspan
    · obtain ⟨rest, rfl⟩ := List.getLast?_eq_some_iff.mp hlast
      rw [List.map_append] at hspan hspans
      exact hspans.stop_le hspan
  · rw [hstop]
    exact hts.before (List.mem_append_right _ (List.mem_of_getLast? hlast)) ht

end Reaches

namespace Grammar

open TrackerQuery.Token (Ordered)

variable {ts : List Token} {value : Expr}

theorem reaches_of_value (h : Value ts value) : value.span.Reaches ts := by
  cases h <;> exact Span.reaches_token _

theorem stop_of_operation {op : Arithmetic} {right : Expr} (h : Operation ts op right) :
    ∃ t ∈ ts.getLast?, right.span.stop = t.span.stop := by
  cases h with
  | @spaced t op us right hop hspelled hright =>
      obtain ⟨u, hu, hstop⟩ := (reaches_of_value hright).last
      refine ⟨u, ?_, hstop⟩
      rw [List.getLast?_cons, Option.mem_def.mp hu]
      rfl
  | @signed t op digits hop hkind hvalue => exact ⟨t, rfl, rfl⟩

theorem reaches_of_expression {n : Nat} (h : Expression n ts value) (hts : Ordered ts) :
    value.span.Reaches ts := by
  induction h with
  | value hvalue => exact reaches_of_value hvalue
  | @operation n us left vs op right hleft hoperation ih =>
      have hfirst := (nestsAlong_of_expression hleft hts.left).along
      have hsecond := (nestsAlong_of_operation hoperation hts.right).along
      exact (ih hts.left).cover (stop_of_operation hoperation) (hfirst.append hts hsecond).inOrder

/-- The place of brackets or of a qualified field. -/
theorem reaches_cover {first last : Token} {us : List Token}
    (hts : Ordered (first :: (us ++ [last]))) :
    (first.span.cover last.span).Reaches (first :: (us ++ [last])) := by
  have hends : [first.span, last.span].Sublist
      ((first :: (us ++ [last])).map Token.span) := by
    simp
  exact (Span.reaches_token first).cover ⟨last, by simp, rfl⟩ (hts.inOrder.sublist hends)

/-- What starts with a constant is an expression. -/
theorem Compared.expression {t : Token} (h : Compared anyName (t :: ts) value)
    (ht : (Expr.ofToken? t).isSome = true) : Expression maxNesting (t :: ts) value := by
  have hplain : t.kind ≠ .operation ∧ t.isName = false := by
    unfold Expr.ofToken? at ht
    split at ht <;> simp_all [Token.isName]
  obtain hexpression | ⟨op, hright⟩ := h
  · exact hexpression
  · cases hright with
    | group hvalue => exact .value hvalue
    | path hvalue => exact .value hvalue
    | list hlist =>
        cases hlist with
        | mk hopening hitems hclosing =>
            simp only [Token.isOperation, Bool.and_eq_true, beq_iff_eq] at hopening
            exact absurd hopening.1 hplain.1
    | field hop hfield =>
        cases hfield with
        | plain hname => exact absurd hname (ne_true_of_eq_false hplain.2)
        | qualified hqualifier hdot hname =>
            exact absurd hqualifier (ne_true_of_eq_false hplain.2)
    | expression hop hexpression => exact hexpression

/-- A compared value reaches over the tokens it is derived from. -/
theorem Compared.reaches {named : Token → Prop} (h : Compared named ts value)
    (hts : Ordered ts) : value.span.Reaches ts := by
  obtain hexpression | ⟨op, hright⟩ := h
  · exact reaches_of_expression hexpression hts
  · cases hright with
    | group hvalue => exact reaches_of_value hvalue
    | path hvalue => exact reaches_of_value hvalue
    | list hlist =>
        cases hlist with
        | mk hopening hitems hclosing => exact reaches_cover hts
    | field hop hfield =>
        cases hfield with
        | plain hname => exact Span.reaches_token _
        | qualified hqualifier hdot hname => exact @reaches_cover _ _ [_] hts
    | expression hop hexpression => exact reaches_of_expression hexpression hts

end Grammar

end TrackerQuery

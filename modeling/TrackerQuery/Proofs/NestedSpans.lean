import TrackerQuery.Proofs.ClauseOrder
import TrackerQuery.Proofs.PlacedTree

/-!
# Nested spans

The tokens of a text lie one after the other, and each part of a query is read from a
stretch of them.  So the span of a part holds the spans of its own parts, and these lie one
after the other as they were written.
-/

namespace TrackerQuery

namespace Span

/-- All of `inner` lies in `outer`. -/
def Contains (outer inner : Span) : Prop :=
  outer.start ≤ inner.start ∧ inner.stop ≤ outer.stop

def Before (a b : Span) : Prop :=
  a.stop ≤ b.start

/-- No two of the spans meet, and each lies before those that follow it. -/
structure InOrder (spans : List Span) : Prop where
  forward : ∀ span ∈ spans, span.start ≤ span.stop
  apart : spans.Pairwise Before

structure Encloses (outer : Span) (parts : List Span) : Prop where
  contains : ∀ part ∈ parts, outer.Contains part
  inOrder : InOrder parts

theorem Contains.refl (span : Span) : span.Contains span :=
  ⟨Nat.le_refl _, Nat.le_refl _⟩

theorem Contains.trans {outer span inner : Span} (h : outer.Contains span)
    (hinner : span.Contains inner) : outer.Contains inner :=
  ⟨Nat.le_trans h.1 hinner.1, Nat.le_trans hinner.2 h.2⟩

theorem contains_cover_right (a b : Span) : (a.cover b).Contains b :=
  ⟨Nat.min_le_right .., Nat.le_max_right ..⟩

theorem Encloses.mono {outer span : Span} {parts : List Span} (h : span.Encloses parts)
    (houter : outer.Contains span) : outer.Encloses parts :=
  ⟨fun part hpart => houter.trans (h.contains part hpart), h.inOrder⟩

theorem inOrder_singleton {span : Span} (h : span.start ≤ span.stop) : InOrder [span] :=
  ⟨by simpa using h, List.pairwise_singleton _ _⟩

theorem encloses_singleton {outer inner : Span} (h : outer.Contains inner)
    (hinner : inner.start ≤ inner.stop) : outer.Encloses [inner] :=
  ⟨by simpa using h, inOrder_singleton hinner⟩

theorem InOrder.sublist {spans parts : List Span} (h : InOrder spans)
    (hparts : parts.Sublist spans) : InOrder parts :=
  ⟨fun span hspan => h.forward span (hparts.subset hspan), h.apart.sublist hparts⟩

theorem InOrder.start_le {first span : Span} {rest : List Span} (h : InOrder (first :: rest))
    (hspan : span ∈ first :: rest) : first.start ≤ span.start := by
  rcases List.mem_cons.mp hspan with rfl | hspan
  · exact Nat.le_refl _
  · exact Nat.le_trans (h.forward first List.mem_cons_self)
      (List.rel_of_pairwise_cons h.apart hspan)

theorem InOrder.stop_le {last span : Span} {spans : List Span} (h : InOrder (spans ++ [last]))
    (hspan : span ∈ spans ++ [last]) : span.stop ≤ last.stop := by
  rcases List.mem_append.mp hspan with hspan | hspan
  · have hlast : last ∈ [last] := List.mem_cons_self
    exact Nat.le_trans ((List.pairwise_append.mp h.apart).2.2 span hspan last hlast)
      (h.forward last (List.mem_append_right _ hlast))
  · exact Nat.le_of_eq (congrArg stop (List.mem_singleton.mp hspan))

theorem coverAll_cons_concat (first last : Span) (spans : List Span) :
    coverAll (first :: (spans ++ [last])) = first.cover last := by
  simp [coverAll]

/-- Spans in order are enclosed by what reaches from the first to the last. -/
theorem InOrder.encloses_coverAll {spans : List Span} (h : InOrder spans) :
    (coverAll spans).Encloses spans := by
  refine ⟨fun span hspan => ?_, h⟩
  cases spans with
  | nil => cases hspan
  | cons first rest =>
      rcases List.eq_nil_or_concat rest with rfl | ⟨middle, last, rfl⟩
      · rw [List.mem_singleton.mp hspan]
        exact contains_cover_right first first
      · rw [List.concat_eq_append] at h hspan ⊢
        rw [coverAll_cons_concat]
        have hstop : span.stop ≤ last.stop := @stop_le _ _ (first :: middle) h hspan
        exact ⟨Nat.le_trans (Nat.min_le_left ..) (h.start_le hspan),
          Nat.le_trans hstop (Nat.le_max_right ..)⟩

/-- What covers spans starts with one of them and ends with one of them. -/
theorem coverAll_ends {spans : List Span} (hne : spans ≠ []) :
    (∃ span ∈ spans, (coverAll spans).start = span.start) ∧
      ∃ span ∈ spans, (coverAll spans).stop = span.stop := by
  obtain ⟨first, rest, rfl⟩ := List.exists_cons_of_ne_nil hne
  have hfirst : first ∈ first :: rest := List.mem_cons_self
  have hlast : rest.getLast?.getD first ∈ first :: rest := by
    cases hlast : rest.getLast? with
    | none => exact hfirst
    | some last => exact List.mem_cons_of_mem _ (List.mem_of_getLast? hlast)
  simp only [coverAll, cover]
  constructor
  · rcases Nat.le_total first.start (rest.getLast?.getD first).start with h | h
    · exact ⟨first, hfirst, Nat.min_eq_left h⟩
    · exact ⟨_, hlast, Nat.min_eq_right h⟩
  · rcases Nat.le_total first.stop (rest.getLast?.getD first).stop with h | h
    · exact ⟨_, hlast, Nat.max_eq_right h⟩
    · exact ⟨first, hfirst, Nat.max_eq_left h⟩

end Span

/-! ## Spans along tokens -/

/-- The tokens are not empty, and each lies before those that follow it. -/
structure Token.Ordered (ts : List Token) : Prop where
  nonempty : ∀ t ∈ ts, t.span.start < t.span.stop
  apart : (ts.map Token.span).Pairwise Span.Before

/-- The spans lie in order, each between the start of a token and the end of a token. -/
structure Span.Along (ts : List Token) (spans : List Span) : Prop where
  inOrder : InOrder spans
  starts : ∀ span ∈ spans, ∃ t ∈ ts, t.span.start ≤ span.start
  stops : ∀ span ∈ spans, ∃ t ∈ ts, span.stop ≤ t.span.stop

section Along

open TrackerQuery.Token (Ordered)
open TrackerQuery.Span (Along)

variable {ts us : List Token} {spans others : List Span}

theorem Token.Ordered.left (h : Ordered (ts ++ us)) : Ordered ts :=
  ⟨fun t ht => h.nonempty t (List.mem_append_left _ ht),
    (List.pairwise_append.mp (List.map_append ▸ h.apart)).1⟩

theorem Token.Ordered.right (h : Ordered (ts ++ us)) : Ordered us :=
  ⟨fun t ht => h.nonempty t (List.mem_append_right _ ht),
    (List.pairwise_append.mp (List.map_append ▸ h.apart)).2.1⟩

theorem Token.Ordered.tail {t : Token} (h : Ordered (t :: ts)) : Ordered ts :=
  right (List.singleton_append ▸ h)

theorem Token.Ordered.before (h : Ordered (ts ++ us)) {t u : Token} (ht : t ∈ ts) (hu : u ∈ us) :
    t.span.Before u.span :=
  (List.pairwise_append.mp (List.map_append ▸ h.apart)).2.2 _ (List.mem_map_of_mem ht) _
    (List.mem_map_of_mem hu)

theorem Token.Ordered.inOrder (h : Ordered ts) : Span.InOrder (ts.map Token.span) :=
  ⟨List.forall_mem_map.mpr fun t ht => Nat.le_of_lt (h.nonempty t ht), h.apart⟩

theorem Token.Ordered.along (h : Ordered ts) : Along ts (ts.map Token.span) :=
  ⟨h.inOrder, List.forall_mem_map.mpr fun t ht => ⟨t, ht, Nat.le_refl _⟩,
    List.forall_mem_map.mpr fun t ht => ⟨t, ht, Nat.le_refl _⟩⟩

theorem Span.Along.mono (h : Along ts spans) (hsubset : ts ⊆ us) : Along us spans := by
  refine ⟨h.inOrder, fun span hspan => ?_, fun span hspan => ?_⟩
  · obtain ⟨t, ht, hstart⟩ := h.starts span hspan
    exact ⟨t, hsubset ht, hstart⟩
  · obtain ⟨t, ht, hstop⟩ := h.stops span hspan
    exact ⟨t, hsubset ht, hstop⟩

theorem Span.Along.sublist (h : Along ts spans) (hothers : others.Sublist spans) :
    Along ts others :=
  ⟨h.inOrder.sublist hothers, fun span hspan => h.starts span (hothers.subset hspan),
    fun span hspan => h.stops span (hothers.subset hspan)⟩

/-- What lies along the first tokens lies before what lies along the others. -/
theorem Span.Along.append (h : Along ts spans) (hts : Ordered (ts ++ us))
    (hothers : Along us others) : Along (ts ++ us) (spans ++ others) := by
  have hstarts := List.forall_mem_append.mpr ⟨(h.mono (List.subset_append_left ts us)).starts,
    (hothers.mono (List.subset_append_right ts us)).starts⟩
  have hstops := List.forall_mem_append.mpr ⟨(h.mono (List.subset_append_left ts us)).stops,
    (hothers.mono (List.subset_append_right ts us)).stops⟩
  refine ⟨⟨List.forall_mem_append.mpr ⟨h.inOrder.forward, hothers.inOrder.forward⟩,
    List.pairwise_append.mpr ⟨h.inOrder.apart, hothers.inOrder.apart, ?_⟩⟩, hstarts, hstops⟩
  intro a ha b hb
  obtain ⟨t, ht, hstop⟩ := h.stops a ha
  obtain ⟨u, hu, hstart⟩ := hothers.starts b hb
  exact Nat.le_trans hstop (Nat.le_trans (hts.before ht hu) hstart)

theorem Span.Along.cons {t : Token} (h : Along ts spans) (hts : Ordered (t :: ts)) :
    Along (t :: ts) (t.span :: spans) := by
  rw [← List.singleton_append] at hts
  exact hts.left.along.append hts h

theorem Span.Along.skip {t : Token} (h : Along ts spans) : Along (t :: ts) spans :=
  h.mono (List.subset_cons_self t ts)

theorem Span.Along.coverAll (h : Along ts spans) (hne : spans ≠ []) :
    Along ts [Span.coverAll spans] := by
  obtain ⟨⟨first, hfirst, hstart⟩, ⟨last, hlast, hstop⟩⟩ := coverAll_ends hne
  have hcontains := h.inOrder.encloses_coverAll.contains first hfirst
  refine ⟨inOrder_singleton ?_, ?_, ?_⟩
  · exact Nat.le_trans hcontains.1 (Nat.le_trans (h.inOrder.forward first hfirst) hcontains.2)
  · simpa [hstart] using h.starts first hfirst
  · simpa [hstop] using h.stops last hlast

/-- What lies along tokens is enclosed by what reaches from the first to the last. -/
theorem Span.Along.encloses (h : Along ts spans) (hts : Ordered ts) :
    (Span.coverAll (ts.map Token.span)).Encloses spans := by
  have hcontains := hts.inOrder.encloses_coverAll.contains
  refine ⟨fun span hspan => ?_, h.inOrder⟩
  obtain ⟨t, ht, hstart⟩ := h.starts span hspan
  obtain ⟨u, hu, hstop⟩ := h.stops span hspan
  exact ⟨Nat.le_trans (hcontains _ (List.mem_map_of_mem ht)).1 hstart,
    Nat.le_trans hstop (hcontains _ (List.mem_map_of_mem hu)).2⟩

/-- The span of a pair of brackets. -/
theorem Span.Along.brackets {opening closing : Token} (h : Along ts spans)
    (hts : Ordered (opening :: (ts ++ [closing]))) :
    (opening.span.cover closing.span).Encloses spans ∧
      Along (opening :: (ts ++ [closing])) [opening.span.cover closing.span] := by
  have hcover : opening.span.cover closing.span =
      Span.coverAll ((opening :: (ts ++ [closing])).map Token.span) := by
    rw [List.map_cons, List.map_append, List.map_singleton, coverAll_cons_concat]
  rw [hcover]
  exact ⟨(h.mono (List.subset_append_left ts [closing])).skip.encloses hts,
    hts.along.coverAll (by simp)⟩

end Along

/-! ## Expressions -/

namespace Expr

/-- The places of what an expression consists of, in the order of the text. -/
def partSpans : Expr → List Span
  | .field _ f => [f.span]
  | .condition _ _ left right => [left.span, right.span]
  | e => e.children.map span

/-- An expression encloses its parts, and so does each of its parts. -/
inductive Nests : Expr → Prop
  | mk {e : Expr} (hparts : e.span.Encloses e.partSpans)
      (hchildren : ∀ child ∈ e.children, Nests child) : Nests e

structure NestsAlong (ts : List Token) (e : Expr) : Prop where
  nests : e.Nests
  along : Span.Along ts [e.span]

section Nests

variable {ts us : List Token} {e : Expr}

theorem nestsAlong_iff : e.NestsAlong ts ↔ e.Nests ∧ Span.Along ts [e.span] :=
  ⟨fun h => ⟨h.nests, h.along⟩, fun h => ⟨h.1, h.2⟩⟩

theorem span_withMark (e : Expr) (m : Mark) : (e.withMark m).span = m.span := by
  cases e <;> rfl

theorem Nests.withMark (h : e.Nests) {m : Mark} (hm : m.span.Contains e.span) :
    (e.withMark m).Nests := by
  obtain ⟨hparts, hchildren⟩ := h
  have hsame : (e.withMark m).partSpans = e.partSpans := by cases e <;> rfl
  have hsameChildren : (e.withMark m).children = e.children := by cases e <;> rfl
  refine ⟨?_, by rwa [hsameChildren]⟩
  rw [span_withMark, hsame]
  exact hparts.mono hm

theorem nests_leaf (hparts : e.partSpans = []) (hchildren : e.children = []) : e.Nests :=
  ⟨by rw [hparts]; exact ⟨by simp, ⟨by simp, .nil⟩⟩, by simp [hchildren]⟩

theorem nestsAlong_combine {op : Arithmetic} {left right : Expr} (hts : Token.Ordered (ts ++ us))
    (hleft : left.NestsAlong ts) (hright : right.NestsAlong us) :
    (combine op left right).NestsAlong (ts ++ us) := by
  have halong := hleft.along.append hts hright.along
  refine ⟨⟨halong.inOrder.encloses_coverAll, ?_⟩, halong.coverAll (by simp)⟩
  simpa [combine, children] using ⟨hleft.nests, hright.nests⟩

theorem nestsAlong_compare {op : Comparison} {left : FieldRef} {right : Expr}
    (hts : Token.Ordered (ts ++ us)) (hleft : Span.Along ts [left.span])
    (hright : right.NestsAlong us) : (compare op left right).NestsAlong (ts ++ us) := by
  have halong := hleft.append hts hright.along
  refine ⟨⟨halong.inOrder.encloses_coverAll, ?_⟩, halong.coverAll (by simp)⟩
  exact List.forall_mem_singleton.mpr hright.nests

theorem nestsAlong_joined {connective : Connective} {operands : List Expr} (hne : operands ≠ [])
    (hoperands : ∀ e ∈ operands, e.Nests) (halong : Span.Along ts (operands.map span)) :
    (joined connective operands).NestsAlong ts := by
  unfold joined
  split
  · exact ⟨hoperands _ (by simp), halong⟩
  · exact ⟨⟨halong.inOrder.encloses_coverAll, hoperands⟩, halong.coverAll (by simpa using hne)⟩

/-- A leading operator first takes the place of its operand. -/
theorem NestsAlong.apply (h : e.NestsAlong ts) (op : Leading) :
    (op.apply e).NestsAlong ts ∧ (op.apply e).span = e.span := by
  have hone : e.span.Encloses [e.span] :=
    Span.encloses_singleton (.refl _) (h.along.inOrder.forward _ List.mem_cons_self)
  have hever : (once e).Nests := ⟨hone, List.forall_mem_singleton.mpr h.nests⟩
  cases op with
  | not => exact ⟨⟨⟨hone, List.forall_mem_singleton.mpr h.nests⟩, h.along⟩, rfl⟩
  | ever => exact ⟨⟨hever, h.along⟩, rfl⟩
  | never => exact ⟨⟨⟨hone, List.forall_mem_singleton.mpr hever⟩, h.along⟩, rfl⟩

/-- A leading operator in front of its operand, placed from its own word on. -/
theorem NestsAlong.lead {t : Token} (h : e.NestsAlong ts) (hts : Token.Ordered (t :: ts))
    (op : Leading) : ((op.apply e).withSpan (t.span.cover e.span)).NestsAlong (t :: ts) := by
  obtain ⟨happlied, hspan⟩ := h.apply op
  have halong := (h.along.cons hts).coverAll (by simp)
  refine ⟨happlied.nests.withMark ?_, ?_⟩
  · rw [hspan]
    exact Span.contains_cover_right ..
  · rw [withSpan, span_withMark]
    exact halong

end Nests

end Expr

namespace Grammar

open TrackerQuery.Token (Ordered)
open TrackerQuery.Span (Along)

variable {ts : List Token}

/-- Items read one after the other lie in order. -/
theorem Separated.along {α : Type} {item : List Token → α → Prop} {separator : Token → Bool}
    {as : List α} (span : α → Span) (P : α → Prop) (hitems : Separated item separator ts as)
    (hts : Ordered ts) (hitem : ∀ {us a}, item us a → Ordered us → P a ∧ Along us [span a]) :
    as ≠ [] ∧ (∀ a ∈ as, P a) ∧ Along ts (as.map span) := by
  induction hitems with
  | one hfirst =>
      obtain ⟨hfirst, halong⟩ := hitem hfirst hts
      exact ⟨by simp, by simpa using hfirst, halong⟩
  | more hfirst hseparator hothers ih =>
      obtain ⟨hfirst, halong⟩ := hitem hfirst hts.left
      obtain ⟨-, hothers, hrest⟩ := ih hts.right.tail
      exact ⟨by simp, List.forall_mem_cons.mpr ⟨hfirst, hothers⟩, halong.append hts hrest.skip⟩

theorem nestsAlong_of_value {e : Expr} (he : Value ts e) (hts : Ordered ts) :
    e.NestsAlong ts := by
  cases he <;> exact ⟨Expr.nests_leaf rfl rfl, hts.along⟩

theorem nestsAlong_of_operation {op : Arithmetic} {right : Expr} (h : Operation ts op right)
    (hts : Ordered ts) : right.NestsAlong ts := by
  cases h with
  | spaced hop hspelled hright =>
      obtain ⟨hnests, halong⟩ := nestsAlong_of_value hright hts.tail
      exact ⟨hnests, halong.skip⟩
  | @signed t op digits hop hkind hvalue =>
      have hnonempty := hts.nonempty t List.mem_cons_self
      refine ⟨Expr.nests_leaf rfl rfl, Span.inOrder_singleton hnonempty, ?_, ?_⟩
      · simp [Expr.span, Expr.mark]
      · simp [Expr.span, Expr.mark]

theorem nestsAlong_of_expression {n : Nat} {e : Expr} (he : Expression n ts e)
    (hts : Ordered ts) : e.NestsAlong ts := by
  induction he with
  | value hvalue => exact nestsAlong_of_value hvalue hts
  | operation hleft hoperation ih =>
      exact Expr.nestsAlong_combine hts (ih hts.left) (nestsAlong_of_operation hoperation hts.right)

theorem nestsAlong_of_valueList {e : Expr} (he : ValueList ts e) (hts : Ordered ts) :
    e.NestsAlong ts := by
  cases he with
  | mk hopening hitems hclosing =>
      obtain ⟨-, hnests, halong⟩ := hitems.along Expr.span Expr.Nests hts.tail.left
        fun he hus => Expr.nestsAlong_iff.mp (nestsAlong_of_expression he hus)
      obtain ⟨hencloses, hbrackets⟩ := halong.brackets hts
      exact ⟨⟨hencloses, hnests⟩, hbrackets⟩

theorem along_of_field {f : FieldRef} (hf : Field anyName ts f) (hts : Ordered ts) :
    Along ts [f.span] := by
  cases hf with
  | plain hname => exact hts.along
  | @qualified q dot t hqualifier hdot hname =>
      have hends : [q.span, t.span].Sublist ([q, dot, t].map Token.span) :=
        (List.sublist_cons_self _ _).cons_cons _
      exact (hts.along.sublist hends).coverAll (by simp)

theorem nestsAlong_of_rightSide {op : Comparison} {e : Expr} (he : RightSide anyName op ts e)
    (hts : Ordered ts) : e.NestsAlong ts := by
  cases he with
  | group hvalue => exact nestsAlong_of_value hvalue hts
  | path hvalue => exact nestsAlong_of_value hvalue hts
  | list hlist => exact nestsAlong_of_valueList hlist hts
  | @field _ _ other hop hfield =>
      have halong := along_of_field hfield hts
      have hencloses : other.span.Encloses [other.span] :=
        Span.encloses_singleton (.refl _) (halong.inOrder.forward _ List.mem_cons_self)
      exact ⟨⟨hencloses, by simp [Expr.ofField, Expr.children]⟩, halong⟩
  | expression hop hexpression => exact nestsAlong_of_expression hexpression hts

theorem nestsAlong_of_condition {e : Expr} (he : Condition anyName ts e) (hts : Ordered ts) :
    e.NestsAlong ts := by
  obtain @⟨fieldTokens, left, words, ops, operator, op, rightTokens, right, hleft, hleading, hcount,
    hop, hright⟩ := he
  have hcompare : (Expr.compare op left right).NestsAlong
      (fieldTokens ++ (words ++ (operator ++ rightTokens))) := by
    have hnested := nestsAlong_of_rightSide hright hts.right.right.right
    refine Expr.nestsAlong_compare hts (along_of_field hleft hts.left) ⟨hnested.nests, ?_⟩
    refine hnested.along.mono fun t ht => ?_
    exact List.mem_append_right _ (List.mem_append_right _ ht)
  clear hop hcount hleading
  induction ops with
  | nil => exact hcompare
  | cons leading ops ih => exact (ih.apply leading).1

theorem nestsAlong_of_disjunction {operand : List Token → Expr → Prop} {e : Expr}
    (he : Disjunction operand ts e) (hts : Ordered ts)
    (hoperand : ∀ {us e}, operand us e → Ordered us → e.NestsAlong us) : e.NestsAlong ts := by
  obtain ⟨operands, hoperands, rfl⟩ := he
  obtain ⟨hne, hnests, halong⟩ := hoperands.along Expr.span Expr.Nests hts <| by
    rintro us _ ⟨operands, hoperands, rfl⟩ hus
    obtain ⟨hne, hnests, halong⟩ := hoperands.along Expr.span Expr.Nests hus
      fun he hus => Expr.nestsAlong_iff.mp (hoperand he hus)
    exact Expr.nestsAlong_iff.mp (Expr.nestsAlong_joined hne hnests halong)
  exact Expr.nestsAlong_joined hne hnests halong

theorem nestsAlong_of_operand {depth : Nat} {e : Expr} (he : Operand anyName depth ts e)
    (hts : Ordered ts) : e.NestsAlong ts := by
  induction depth generalizing ts e with
  | zero => exact nestsAlong_of_condition he hts
  | succ depth ih =>
      cases he with
      | condition hcondition => exact nestsAlong_of_condition hcondition hts
      | leading hword hinner => exact (ih hinner hts.tail).lead hts _
      | exclamation hmark hinner => exact (ih hinner hts.tail).lead hts .not
      | @parens opening inner e closing hopening hinner hclosing =>
          have hnested := nestsAlong_of_disjunction hinner hts.tail.left ih
          obtain ⟨hencloses, hbrackets⟩ := hnested.along.brackets hts
          refine ⟨hnested.nests.withMark (hencloses.contains _ List.mem_cons_self), ?_⟩
          rwa [Expr.span_withMark]

end Grammar

/-! ## Queries -/

def FieldList.Nests (list : FieldList) : Prop :=
  list.span.Encloses (list.fields.map FieldRef.span)

def ModeList.Nests (list : ModeList) : Prop :=
  list.span.Encloses (list.items.map ModeItem.span)

namespace Select

namespace ClauseBody

def span : ClauseBody → Span
  | .table ref => ref.span
  | .filter e | .asOf e => e.span
  | .grouping list | .ordering list => list.span
  | .modes list => list.span

def Nests : ClauseBody → Prop
  | .table _ => True
  | .filter e | .asOf e => e.Nests
  | .grouping list | .ordering list => list.Nests
  | .modes list => list.Nests

end ClauseBody

def bodies (query : Select) : List ClauseBody :=
  query.table.toList.map .table ++ (query.filter.toList.map .filter ++
    (query.grouping.toList.map .grouping ++ (query.ordering.toList.map .ordering ++
      (query.asOf.toList.map .asOf ++ query.modes.toList.map .modes))))

def clauseSpans (written : List (Token × ClauseBody)) : List Span :=
  written.flatMap fun clause => [clause.1.span, clause.2.span]

/-- The parts of a query that was read from the tokens nest.  Its columns and clauses lie in
the order in which they were written. -/
structure Nests (ts : List Token) (query : Select) : Prop where
  columns : ∀ list ∈ query.columns, list.Nests
  bodies : ∀ body ∈ query.bodies, body.Nests
  written : ∃ written : List (Token × ClauseBody),
    query.bodies.Perm (written.map Prod.snd) ∧
      (∀ clause ∈ written,
        clause.1 ∈ ts ∧ clause.1.isKeyword (Grammar.clauseWord clause.2.kind) = true) ∧
      query.span.Encloses ((query.columns.map FieldList.span).toList ++ clauseSpans written)

theorem perm_append_of_perm_cons {α : Type} {a : α} {l l' : List α} (start : List α)
    (h : l.Perm (a :: l')) : (start ++ l).Perm (a :: (start ++ l')) :=
  (h.append_left start).trans List.perm_middle

/-- A clause that a query does not have yet is one more. -/
theorem bodies_put {query : Select} {body : ClauseBody} (h : query.has body.kind = false) :
    (query.put body).bodies.Perm (body :: query.bodies) := by
  have hskip := @perm_append_of_perm_cons ClauseBody body
  cases body with
  | table ref =>
      have hnone : query.table = none := by simpa [has, ClauseBody.kind] using h
      simp only [bodies, put, hnone]
      exact .refl _
  | filter e =>
      have hnone : query.filter = none := by simpa [has, ClauseBody.kind] using h
      simp only [bodies, put, hnone]
      exact hskip _ (.refl _)
  | grouping list =>
      have hnone : query.grouping = none := by simpa [has, ClauseBody.kind] using h
      simp only [bodies, put, hnone]
      exact hskip _ (hskip _ (.refl _))
  | ordering list =>
      have hnone : query.ordering = none := by simpa [has, ClauseBody.kind] using h
      simp only [bodies, put, hnone]
      exact hskip _ (hskip _ (hskip _ (.refl _)))
  | asOf moment =>
      have hnone : query.asOf = none := by simpa [has, ClauseBody.kind] using h
      simp only [bodies, put, hnone]
      exact hskip _ (hskip _ (hskip _ (hskip _ (.refl _))))
  | modes list =>
      have hnone : query.modes = none := by simpa [has, ClauseBody.kind] using h
      simp only [bodies, put, hnone]
      exact hskip _ (hskip _ (hskip _ (hskip _ (hskip _ (.refl _)))))

theorem columns_put (query : Select) (body : ClauseBody) :
    (query.put body).columns = query.columns := by
  cases body <;> rfl

end Select

namespace Grammar

open TrackerQuery.Token (Ordered)
open TrackerQuery.Span (Along)

variable {ts : List Token}

theorem along_of_orderedField {f : FieldRef} (hf : OrderedField anyName ts f) (hts : Ordered ts) :
    Along ts [f.span] := by
  cases hf with
  | plain hfield => exact along_of_field hfield hts
  | ascending hfield hword | descending hfield hword =>
      exact ((along_of_field hfield hts.left).append hts hts.right.along).coverAll (by simp)

theorem nestsAlong_of_fields {kind : FieldListKind} {list : FieldList}
    (hlist : Fields anyName kind ts list) (hts : Ordered ts) :
    list.Nests ∧ Along ts [list.span] := by
  obtain ⟨hfields⟩ := hlist
  obtain ⟨hne, -, halong⟩ := hfields.along FieldRef.span (fun _ => True) hts <| by
    intro us f hf hus
    cases kind with
    | order => exact ⟨trivial, along_of_orderedField hf hus⟩
    | _ => exact ⟨trivial, along_of_field hf hus⟩
  exact ⟨halong.inOrder.encloses_coverAll, halong.coverAll (by simpa using hne)⟩

theorem nestsAlong_of_modes {list : ModeList} (hlist : Modes anyName ts list) (hts : Ordered ts) :
    list.Nests ∧ Along ts [list.span] := by
  cases hlist with
  | mk hopening hitems hclosing =>
      obtain ⟨-, -, halong⟩ := hitems.along ModeItem.span (fun _ => True) hts.tail.left <| by
        rintro us item ⟨hname⟩ hus
        exact ⟨trivial, hus.along⟩
      exact halong.brackets hts

/-- A clause is its keyword and a body that lies after it. -/
theorem clause_put {query next : Select} (h : Clause anyName ts query next) (hts : Ordered ts) :
    ∃ word used body, ts = word :: used ∧ word.isKeyword (clauseWord body.kind) = true ∧
      query.has body.kind = false ∧ next = query.put body ∧ body.Nests ∧
      Along used [body.span] := by
  cases h with
  | @table word t query hword hfirst hname =>
      exact ⟨word, [t], .table _, rfl, hword, by simp [Select.has, Select.ClauseBody.kind, hfirst],
        rfl, trivial, hts.tail.along⟩
  | @filter word used e query hword hfirst hfilter =>
      obtain ⟨hnests, halong⟩ := nestsAlong_of_disjunction hfilter hts.tail nestsAlong_of_operand
      exact ⟨word, used, .filter e, rfl, hword,
        by simp [Select.has, Select.ClauseBody.kind, hfirst], rfl, hnests, halong⟩
  | @grouping word by_ used list query hword hby hfirst hlist =>
      obtain ⟨hnests, halong⟩ := nestsAlong_of_fields hlist hts.tail.tail
      exact ⟨word, by_ :: used, .grouping list, rfl, hword,
        by simp [Select.has, Select.ClauseBody.kind, hfirst], rfl, hnests, halong.skip⟩
  | @ordering word by_ used list query hword hby hfirst hlist =>
      obtain ⟨hnests, halong⟩ := nestsAlong_of_fields hlist hts.tail.tail
      exact ⟨word, by_ :: used, .ordering list, rfl, hword,
        by simp [Select.has, Select.ClauseBody.kind, hfirst], rfl, hnests, halong.skip⟩
  | @asOf word used e query hword hfirst hvalue =>
      obtain ⟨hnests, halong⟩ := nestsAlong_of_value hvalue hts.tail
      exact ⟨word, used, .asOf e, rfl, hword,
        by simp [Select.has, Select.ClauseBody.kind, hfirst], rfl, hnests, halong⟩
  | @modes word used list query hword hfirst hmodes =>
      obtain ⟨hnests, halong⟩ := nestsAlong_of_modes hmodes hts.tail
      exact ⟨word, used, .modes list, rfl, hword,
        by simp [Select.has, Select.ClauseBody.kind, hfirst], rfl, hnests, halong⟩

/-- Each clause adds itself to the query, after those before it in the text. -/
theorem along_of_clauses {query last : Select} (h : Clauses anyName ts query last)
    (hts : Ordered ts) : last.columns = query.columns ∧
      ∃ written : List (Token × Select.ClauseBody),
        last.bodies.Perm (written.map Prod.snd ++ query.bodies) ∧
        (∀ clause ∈ written, clause.1 ∈ ts ∧
          clause.1.isKeyword (clauseWord clause.2.kind) = true ∧ clause.2.Nests) ∧
        Along ts (Select.clauseSpans written) := by
  induction h with
  | nil => exact ⟨rfl, [], .refl _, by simp, hts.along⟩
  | @cons ts us query next last hclause hothers ih =>
      obtain ⟨word, used, body, rfl, hword, hnew, rfl, hnests, halong⟩ :=
        clause_put hclause hts.left
      obtain ⟨hcolumns, written, hperm, hwritten, hrest⟩ := ih hts.right
      refine ⟨hcolumns.trans (query.columns_put body), (word, body) :: written, ?_, ?_, ?_⟩
      · refine hperm.trans ?_
        exact ((Select.bodies_put hnew).append_left _).trans List.perm_middle
      · refine List.forall_mem_cons.mpr ⟨⟨by simp, hword, hnests⟩, fun clause hclause => ?_⟩
        obtain ⟨hmem, hclause⟩ := hwritten clause hclause
        exact ⟨List.mem_append_right _ hmem, hclause⟩
      · exact (halong.cons hts.left).append hts hrest

theorem wholeSpan_eq_coverAll (word : Token) (others : List Token) :
    wholeSpan word others = Span.coverAll ((word :: others).map Token.span) := by
  simp [wholeSpan, Span.coverAll, List.getLast?_cons]

/-- A query nests where its tokens lie in order. -/
theorem nests_of_query {query : Select} (h : Query anyName ts query) (hts : Ordered ts) :
    query.Nests ts := by
  obtain @⟨word, columnTokens, columns, clauseTokens, last, hword, hcolumns, hclauses⟩ := h
  obtain ⟨hsame, written, hperm, hwritten, halong⟩ := along_of_clauses hclauses hts.tail.right
  have hperm : last.bodies.Perm (written.map Prod.snd) := by
    simpa [Select.bodies] using hperm
  have hlist : (∀ list ∈ columns, list.Nests) ∧
      Along columnTokens (columns.map FieldList.span).toList := by
    cases hcolumns with
    | all hstar => exact ⟨by simp, hts.tail.left.along.sublist (List.nil_sublist _)⟩
    | fields hlist =>
        obtain ⟨hnests, halong⟩ := nestsAlong_of_fields hlist hts.tail.left
        exact ⟨by simpa using hnests, halong⟩
  refine ⟨?_, fun body hbody => ?_, written, hperm, fun clause hclause => ?_, ?_⟩
  · rw [hsame]
    exact hlist.1
  · obtain ⟨clause, hclause, rfl⟩ := List.mem_map.mp (hperm.mem_iff.mp hbody)
    exact (hwritten clause hclause).2.2
  · obtain ⟨hmem, hkeyword, -⟩ := hwritten clause hclause
    exact ⟨List.mem_cons_of_mem _ (List.mem_append_right _ hmem), hkeyword⟩
  · rw [wholeSpan_eq_coverAll, hsame]
    exact (hlist.2.append hts.tail halong).skip.encloses hts

end Grammar

namespace Select

theorem ordered_of_tokens {text : String} {ts : List Token} (htokens : tokens text = .ok ts) :
    Token.Ordered ts := by
  refine ⟨fun t ht => (placedIn_of_tokens htokens t ht).span.nonempty, ?_⟩
  obtain ⟨-, rfl⟩ := tokens_eq_ok_iff.mp htokens
  exact List.pairwise_map.mpr (Scan.pairwise_scan text)

/-- Every span of a parsed query is a nonempty stretch of whole characters of its text.  The
span of each part encloses those of its own parts, which lie apart and in the order of the
text; so do the columns and the clauses, each behind its keyword, in the span of the query. -/
theorem spans_nest_of_parse {text : String} {query : Select} (hparse : parse text = .ok query) :
    query.PlacedIn text ∧ ∃ ts, tokens text = .ok ts ∧ query.Nests ts := by
  obtain ⟨ts, htokens, hread⟩ := bind_eq_ok_iff.mp hparse
  exact ⟨placedIn_of_parse hparse, ts, htokens,
    Grammar.nests_of_query (Grammar.query_of_ofTokens (solid_of_tokens htokens) hread)
      (ordered_of_tokens htokens)⟩

/-- A filter in parentheses, with `never`, a trailing `not` and the sign of a number as an
operator, between an ordering and the table. -/
theorem spans_nest_of_trailing_table :
    ∃ query, parse "select a, b order by q.c desc where (never x not in ('é', 1 +2)) from X" =
        .ok query ∧
      query.filter.map Expr.span = some ⟨36, 65⟩ ∧
      query.ordering.map FieldList.span = some ⟨21, 29⟩ ∧
      query.table.map TableRef.span = some ⟨71, 72⟩ ∧
      query.PlacedIn "select a, b order by q.c desc where (never x not in ('é', 1 +2)) from X" ∧
      ∃ ts, tokens "select a, b order by q.c desc where (never x not in ('é', 1 +2)) from X" =
        .ok ts ∧ query.Nests ts := by
  have hparse : (parse "select a, b order by q.c desc where (never x not in ('é', 1 +2)) from X"
      ).toOption.any (fun query => query.filter.map Expr.span = some ⟨36, 65⟩ ∧
        query.ordering.map FieldList.span = some ⟨21, 29⟩ ∧
        query.table.map TableRef.span = some ⟨71, 72⟩) = true := by
    decide +kernel
  obtain ⟨query, hquery, hspans⟩ := (Option.any_eq_true _ _).mp hparse
  obtain ⟨hfilter, hordering, htable⟩ := of_decide_eq_true hspans
  have hparse := toOption_eq_some_iff.mp hquery
  exact ⟨query, hparse, hfilter, hordering, htable, spans_nest_of_parse hparse⟩

end Select

end TrackerQuery

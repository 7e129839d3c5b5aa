import TrackerQuery.Proofs.PrintedFilter

/-!
# Printed filters that nest too deep

Reading gives up on a printed filter as soon as it opens one level more than it
allows, wherever in the filter that is.
-/

namespace TrackerQuery

open Grammar TrackerQuery.Parser
open Scan (Reads Ends)

/-- Reading fails since the tokens nest too deep, whatever follows them. -/
def TooDeep {α : Type} (read : Parser α) (ts : List Token) : Prop :=
  ∀ rest, ∃ place, read (ts ++ rest) = .error (.fault .tooComplexExpression place)

section Separated

variable {α : Type} {item : Parser α} {separator : Token → Bool}

theorem TooDeep.append {read : Parser α} {ts : List Token} (hts : TooDeep read ts)
    (us : List Token) : TooDeep read (ts ++ us) := by
  intro rest
  rw [List.append_assoc]
  exact hts (us ++ rest)

theorem TooDeep.sepBy {ts : List Token} (hts : TooDeep item ts) :
    TooDeep (sepBy item separator) ts := by
  intro rest
  obtain ⟨place, hfail⟩ := hts rest
  refine ⟨place, ?_⟩
  rw [Parser.sepBy, hfail]
  rfl

/-- The items before the one that nests too deep are read. -/
theorem TooDeep.sepBy_cons {ts us : List Token} {a : α} {t : Token}
    (hitem : ∀ rest, item (ts ++ t :: rest) = .ok (a, t :: rest)) (ht : separator t = true)
    (hus : TooDeep (Parser.sepBy item separator) us) :
    TooDeep (Parser.sepBy item separator) (ts ++ t :: us) := by
  intro rest
  obtain ⟨place, hfail⟩ := hus rest
  refine ⟨place, ?_⟩
  have hnext := token?_eq_some_iff.mpr ⟨(rfl : t :: (us ++ rest) = _), ht⟩
  have hshorter : (us ++ rest).length < (ts ++ t :: (us ++ rest)).length := by
    simp
    omega
  rw [List.append_assoc, List.cons_append, Parser.sepBy, hitem]
  simp only [bind, Except.bind, hnext, hshorter, if_true, hfail]

end Separated

section Operands

variable {operand : Parser Expr} {ts : List Token}

theorem tooDeep_conjunction (hts : TooDeep (sepBy operand isAnd) ts) :
    TooDeep (Expr.conjunction operand) ts := by
  intro rest
  obtain ⟨place, hfail⟩ := hts rest
  have hfail : sepBy operand (fun t => t.isKeyword "and" || t.isOperation "&&") (ts ++ rest) =
      .error (.fault .tooComplexExpression place) := hfail
  refine ⟨place, ?_⟩
  rw [Expr.conjunction, hfail]
  rfl

theorem tooDeep_disjunction (hts : TooDeep (sepBy (Expr.conjunction operand) isOr) ts) :
    TooDeep (Expr.disjunction operand) ts := by
  intro rest
  obtain ⟨place, hfail⟩ := hts rest
  have hfail : sepBy (Expr.conjunction operand) (fun t => t.isKeyword "or" || t.isOperation "||")
      (ts ++ rest) = .error (.fault .tooComplexExpression place) := hfail
  refine ⟨place, ?_⟩
  rw [Expr.disjunction, hfail]
  rfl

end Operands

/-- An operator in front of an operand takes a level. -/
theorem tooDeep_leading {n : Nat} {t : Token} {leading : Expr.Leading} {ts : List Token}
    (ht : t.isKeyword (word leading) = true)
    (hts : ∀ k, n = k + 1 → TooDeep (Expr.operand k) ts) : TooDeep (Expr.operand n) (t :: ts) := by
  intro rest
  have hleading : Expr.leading? (t :: (ts ++ rest)) = some (leading, t.span, ts ++ rest) := by
    simp [Expr.leading?, leading_ofToken?_eq_some ht]
  rw [List.cons_append, Expr.operand.eq_def]
  cases n with
  | zero => exact ⟨_, by simp only [hleading]; rfl⟩
  | succ k =>
      obtain ⟨place, hfail⟩ := hts k rfl rest
      exact ⟨place, by simp only [hleading, hfail, bind, Except.bind]⟩

/-- Parentheses take a level. -/
theorem tooDeep_parens {n : Nat} {opening : Token} {ts : List Token}
    (hopening : opening.isOperation "(" = true)
    (hts : ∀ k, n = k + 1 → TooDeep (Expr.disjunction (Expr.operand k)) ts) :
    TooDeep (Expr.operand n) (opening :: ts) := by
  intro rest
  have hword : Expr.Leading.ofToken? opening = none :=
    leading_ofToken?_eq_none (.inl (by simp [Token.kind_of_isOperation hopening]))
  have hleading : Expr.leading? (opening :: (ts ++ rest)) = none :=
    leading?_eq_none hword (by simp [Token.isOperation_eq_of_isOperation hopening]) _
  have hfirst : operation? "(" (opening :: (ts ++ rest)) = some (opening, ts ++ rest) :=
    operation?_eq_some_iff.mpr ⟨rfl, hopening⟩
  rw [List.cons_append, Expr.operand.eq_def]
  cases n with
  | zero => exact ⟨_, by simp only [hleading, hfirst]; rfl⟩
  | succ k =>
      obtain ⟨place, hfail⟩ := hts k rfl rest
      exact ⟨place, by simp only [hleading, hfirst, hfail, bind, Except.bind]⟩

/-! ## Reading at a level -/

/-- Reads what stands where parts hold at least as strongly as `limit`. -/
def parserAt (n : Nat) : (limit : Precedence) → Parser Expr
  | .or | .comma => Expr.disjunction (Expr.operand n)
  | .and => Expr.conjunction (Expr.operand n)
  | _ => Expr.operand n

theorem tooDeep_of_operand {n : Nat} {ts : List Token} (limit : Precedence)
    (hts : TooDeep (Expr.operand n) ts) : TooDeep (parserAt n limit) ts := by
  cases limit with
  | operand | add | comparison | unary => exact hts
  | and => exact tooDeep_conjunction hts.sepBy
  | or | comma => exact tooDeep_disjunction (tooDeep_conjunction hts.sepBy).sepBy

theorem tooDeep_mono {n : Nat} {a b : Precedence} (hab : a.rank ≤ b.rank) {ts : List Token}
    (hts : TooDeep (parserAt n a) ts) : TooDeep (parserAt n b) ts := by
  cases a with
  | operand | add | comparison | unary => exact tooDeep_of_operand b hts
  | and =>
      cases b with
      | operand | add | comparison | unary => simp [Precedence.rank] at hab
      | and => exact hts
      | or | comma => exact tooDeep_disjunction (TooDeep.sepBy hts)
  | or | comma =>
      cases b with
      | operand | add | comparison | unary | and => simp [Precedence.rank] at hab
      | or | comma => exact hts

/-- An operand of a connective is read up to the connective. -/
theorem parserAt_of_level {n : Nat} {connective : Connective} {ts : List Token} {e : Expr}
    {t : Token} (he : Level n (Expr.operandLimit connective) ts e)
    (ht : isConnective connective t = true) (rest : List Token) :
    parserAt n (Expr.operandLimit connective) (ts ++ t :: rest) = .ok (e, t :: rest) := by
  cases connective with
  | and =>
      exact complete_operand n _ _ _ he (stops_cons.mpr (continuesOperand_eq_false (.inl ht)))
  | or =>
      refine complete_conjunction (complete_operand n) _ _ _ he (stops_cons.mpr ?_)
      rw [continuesConjunction, continuesOperand_eq_false (.inr ht), isAnd_eq_false ht]
      rfl

/-! ## Printed text -/

theorem nesting_of_printableValue {e : Expr} (he : e.PrintableValue) : e.nesting = 0 := by
  cases he <;> rfl

theorem nesting_of_printableSum {n : Nat} {e : Expr} (he : e.PrintableSum n) : e.nesting = 0 := by
  induction he with
  | value he => exact nesting_of_printableValue he
  | @arithmetic n span op left right hop hleft hright ih =>
      have hright := nesting_of_printableValue hright
      rw [Expr.nesting] at ih hright ⊢
      rw [Expr.heaviestPath, ih, hright]
      rfl

theorem nesting_of_printableRight {op : Comparison} {right : Expr}
    (hright : right.PrintableRight op) : right.nesting = 0 := by
  cases hright with
  | value hop he => exact nesting_of_printableValue he
  | @list span items hitems hall =>
      have hnone : Expr.heaviestOf Expr.levels items = 0 := by
        clear hitems
        induction items with
        | nil => rfl
        | cons item items ih =>
            have hitem : item.heaviestPath Expr.levels = 0 :=
              nesting_of_printableSum (hall item (by simp))
            rw [Expr.heaviestOf, hitem, ih fun e he => hall e (by simp [he])]
            rfl
      rw [Expr.nesting, Expr.heaviestPath, hnone]
      rfl
  | field hop hfield hdirection => rfl
  | sum hop he => exact nesting_of_printableSum he

/-- Reading the expression fails at its own level if it is not in parentheses and
fewer levels are left than it needs. -/
def FailsOpen (e : Expr) : Prop :=
  ∀ span n, n < (e.withMark { span }).nesting →
    Reads (e.withMark { span }).render.toList (TooDeep (parserAt n e.precedence))

def FailsDeep (e : Expr) : Prop :=
  ∀ n limit, n < e.nesting → e.Fits limit → Reads e.render.toList (TooDeep (parserAt n limit))

/-- Wherever an expression stands, some tokens are scanned for it. -/
theorem ReadsBack.reads {e : Expr} (he : ReadsBack e) : Reads e.render.toList fun _ => True :=
  (he e.nesting .comma (Nat.le_refl _) (.inr (by cases e.precedence <;> decide))).imp fun _ _ =>
    trivial

theorem FailsOpen.failsDeep {e : Expr} (he : FailsOpen e) (hread : ReadsOpen e) : FailsDeep e := by
  rw [← e.withMark_mark]
  obtain ⟨span, parens⟩ := e.mark
  intro n limit hn hfits
  cases parens with
  | false =>
      refine (he span n hn).imp fun ts hts => tooDeep_mono ?_ hts
      rw [Expr.Fits, Expr.parens_withMark, Expr.precedence_withMark] at hfits
      simpa [Precedence.weaker] using hfits
  | true =>
      rw [Expr.nesting_withMark] at hn
      rw [toList_render_parens]
      cases n with
      | zero =>
          refine (hread span _ (Nat.le_refl _)).parens.imp ?_
          rintro _ ⟨opening, us, closing, rfl, hopening, -, -⟩
          exact tooDeep_of_operand limit (tooDeep_parens hopening (by simp))
      | succ k =>
          refine (he span k (by simp at hn; omega)).parens.imp ?_
          rintro _ ⟨opening, us, closing, rfl, hopening, hus, -⟩
          refine tooDeep_of_operand limit (tooDeep_parens hopening fun k' hk => ?_)
          cases hk
          have hinner : TooDeep (Expr.disjunction (Expr.operand k)) us :=
            tooDeep_mono (b := .comma) (by cases e.precedence <;> decide) hus
          exact hinner.append [closing]

/-- An operator in front of an operand, with too few levels for the two. -/
theorem reads_tooDeep_leading {e : Expr} (he : FailsDeep e) (hread : ReadsBack e)
    (hfits : e.Fits .unary) {n : Nat} (hn : n < 1 + e.nesting) (leading : Expr.Leading) :
    Reads ((word leading).toList ++ ' ' :: e.render.toList) (TooDeep (Expr.operand n)) := by
  cases n with
  | zero =>
      refine ((reads_leadingWord leading).spaced hread.reads).imp ?_
      rintro _ ⟨_, us, rfl, ⟨t, rfl, ht⟩, -⟩
      exact tooDeep_leading ht (by simp)
  | succ k =>
      refine ((reads_leadingWord leading).spaced (he k .unary (by omega) hfits)).imp ?_
      rintro _ ⟨_, us, rfl, ⟨t, rfl, ht⟩, hus⟩
      refine tooDeep_leading ht fun k' hk => ?_
      cases hk
      exact hus

/-- Operands of which one nests too deep: those before it are read, and those after
it are not looked at. -/
theorem reads_tooDeep_operands {connective : Connective} {es : List Expr} {n : Nat}
    (hread : ∀ e ∈ es, ReadsBack e) (hfail : ∀ e ∈ es, FailsDeep e)
    (hfits : ∀ e ∈ es, e.Fits (Expr.operandLimit connective)) (hdeep : ∃ e ∈ es, n < e.nesting) :
    Reads ((Expr.separator connective).toList.intercalate (es.map fun e => e.render.toList))
      (TooDeep (sepBy (parserAt n (Expr.operandLimit connective)) (isConnective connective))) := by
  induction es with
  | nil => simp at hdeep
  | cons e es ih =>
      have hfits' := hfits e (by simp)
      have hothers : ∀ e' ∈ es, e' ∈ e :: es := fun e' he' => List.mem_cons_of_mem e he'
      cases es with
      | nil =>
          simp only [List.mem_singleton, exists_eq_left] at hdeep
          simp only [List.map_cons, List.map_nil, List.intercalate_singleton]
          exact (hfail e (by simp) n _ hdeep hfits').imp fun ts hts => hts.sepBy
      | cons e' es =>
          simp only [List.map_cons, List.intercalate_cons_cons, List.append_assoc] at ih ⊢
          by_cases hn : n < e.nesting
          · have hrest := reads_operands (List.cons_ne_nil e' es)
              (fun d hd => Expr.heaviestPath_le_heaviestOf hd) (fun d hd => hread d (hothers d hd))
              fun d hd => hfits d (hothers d hd)
            refine ((hfail e (by simp) n _ hn hfits').append (reads_connective connective hrest)
              (ends_separator connective _)).imp ?_
            rintro _ ⟨us, vs, rfl, hus, -⟩
            exact hus.sepBy.append vs
          · have hlater : ∃ d ∈ e' :: es, n < d.nesting := by
              obtain ⟨d, hd, hdeep⟩ := hdeep
              obtain rfl | hd := List.mem_cons.mp hd
              · exact absurd hdeep hn
              · exact ⟨d, hd, hdeep⟩
            have hrest := ih (fun d hd => hread d (hothers d hd))
              (fun d hd => hfail d (hothers d hd)) (fun d hd => hfits d (hothers d hd)) hlater
            refine ((hread e (by simp) n _ (by omega) hfits').append
              (reads_connective connective hrest) (ends_separator connective _)).imp ?_
            rintro _ ⟨us, _, rfl, ⟨d, hd, -⟩, t, vs, rfl, ht, hvs⟩
            exact TooDeep.sepBy_cons (parserAt_of_level hd ht) ht hvs

theorem exists_of_lt_heaviestOf {weight : Expr → Nat} {es : List Expr} {n : Nat}
    (hn : n < Expr.heaviestOf weight es) : ∃ e ∈ es, n < e.heaviestPath weight := by
  induction es with
  | nil => cases hn
  | cons e es ih =>
      rw [Expr.heaviestOf] at hn
      by_cases hfirst : n < e.heaviestPath weight
      · exact ⟨e, by simp, hfirst⟩
      · obtain ⟨d, hd, hdeep⟩ := ih (by omega)
        exact ⟨d, by simp [hd], hdeep⟩

/-- Every printable expression is refused where it nests too deep. -/
theorem failsOpen_of_printable {e : Expr} (he : e.Printable) : FailsOpen e := by
  induction he with
  | @condition m op left right hleft hdirection hop hright =>
      intro span n hn
      have hflat : right.heaviestPath Expr.levels = 0 := nesting_of_printableRight hright
      rw [Expr.withMark, Expr.nesting, Expr.heaviestPath, hflat] at hn
      cases hn
  | not he hfits ih =>
      intro span n hn
      have hread := readsOpen_of_printable he
      rw [Expr.withMark, toList_render_not hfits]
      exact reads_tooDeep_leading (ih.failsDeep hread) hread.readsBack hfits hn .not
  | ever he hfits ih =>
      intro span n hn
      have hread := readsOpen_of_printable he
      rw [Expr.withMark, toList_render_ever hfits]
      exact reads_tooDeep_leading (ih.failsDeep hread) hread.readsBack hfits hn .ever
  | @junction m connective es hmany hall hfits ih =>
      intro span n hn
      have hread := fun e he => readsOpen_of_printable (hall e he)
      have hdeep : ∃ e ∈ es, n < e.nesting :=
        exists_of_lt_heaviestOf (Nat.lt_of_lt_of_eq hn (Nat.zero_add _))
      have hoperands := reads_tooDeep_operands (fun e he => (hread e he).readsBack)
        (fun e he => (ih e he).failsDeep (hread e he)) hfits hdeep
      rw [Expr.withMark, toList_render_junction hfits]
      cases connective with
      | and => exact hoperands.imp fun ts hts => tooDeep_conjunction hts
      | or => exact hoperands.imp fun ts hts => tooDeep_disjunction hts

/-- A filter that nests too deep is refused. -/
theorem reads_filter_tooDeep {e : Expr} (he : e.Printable) (hnesting : maxNesting < e.nesting) :
    Reads e.render.toList (TooDeep Expr.filter) :=
  (failsOpen_of_printable he).failsDeep (readsOpen_of_printable he) maxNesting .comma hnesting
    (.inr (by cases e.precedence <;> decide))

end TrackerQuery

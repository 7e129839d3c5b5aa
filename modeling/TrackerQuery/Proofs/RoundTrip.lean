import TrackerQuery.Proofs.PrintedQuery

/-!
# Printing and parsing again

A parsed query parses again from its printed text, as the same query up to places,
exactly if the printed filter does not nest deeper than parsing allows.
-/

namespace TrackerQuery

open Grammar
open Scan (Reads)

namespace Select

theorem printable_of_parse {text : String} {query : Select} (hparse : parse text = .ok query) :
    query.Printable := by
  obtain ⟨ts, htokens, hread⟩ := parse_eq_ok_iff.mp hparse
  exact (query_of_ofTokens (solid_of_tokens htokens) hread).printable (scanned_of_tokens htokens)

/-- The text of a filter that nests too deep is refused. -/
theorem parse_render_tooDeep {query : Select} (hquery : query.Printable) {filter : Expr}
    (hfilter : query.filter = some filter) (hdeep : maxNesting < filter.nesting) :
    ∃ place, parse query.render = .error (.fault .tooComplexExpression place) := by
  obtain ⟨ts, htokens, place, hfail⟩ := (reads_query_tooDeep hquery hfilter hdeep).tokens
  refine ⟨place, ?_⟩
  rw [parse, htokens]
  exact hfail

/-- A parsed query is parsed again from its printed text exactly if no path of its
filter has more parentheses and leading operators than parsing allows. -/
theorem parse_render_iff {text : String} {query : Select} (hparse : parse text = .ok query) :
    (∃ again, parse query.render = .ok again ∧ again.unplaced = query.unplaced ∧
      again.render = query.render) ↔
    ∀ filter ∈ query.filter, filter.nesting ≤ maxNesting := by
  have hprintable := printable_of_parse hparse
  constructor
  · rintro ⟨again, hagain, -⟩ filter hfilter
    refine Decidable.byContradiction fun hdeep => ?_
    obtain ⟨place, hfail⟩ := parse_render_tooDeep hprintable hfilter (by omega)
    rw [hfail] at hagain
    cases hagain
  · intro hnesting
    obtain ⟨ts, htokens, again, hagain, heq⟩ := (reads_query hprintable hnesting).tokens
    exact ⟨again, parse_eq_ok_iff.mpr ⟨ts, htokens, ofTokens_of_query hagain⟩, heq,
      render_congr heq⟩

/-- Clauses in another order, a name that needs brackets, a quote, a sign that is an
operator and an operator between a field and its comparison. -/
theorem parse_render_of_reordered :
    ∃ query again,
      parse ("SELECT [by], source.x MODE (recursive) WHERE ([x] never contains 'it''s' or " ++
        "y in (1 -2)) && z = @me ORDER BY a desc FROM links") = .ok query ∧
      parse query.render = .ok again ∧ again.unplaced = query.unplaced ∧
      again.render = query.render := by
  have hparses :
      ((parse ("SELECT [by], source.x MODE (recursive) WHERE ([x] never contains 'it''s' or " ++
        "y in (1 -2)) && z = @me ORDER BY a desc FROM links")).toOption.any fun query =>
      query.filter.all (·.nesting ≤ maxNesting)) = true := by
    decide +kernel
  obtain ⟨query, hquery, hfilter⟩ := (Option.any_eq_true _ _).mp hparses
  have hparse := toOption_eq_some_iff.mp hquery
  obtain ⟨again, hagain⟩ := (parse_render_iff hparse).mpr fun filter hmem =>
    of_decide_eq_true ((Option.all_eq_true _ _).mp hfilter filter hmem)
  exact ⟨query, again, hparse, hagain⟩

end Select

/-! ## Operators in parentheses -/

/-- Words between a field and its comparison. -/
theorem reads_nots {b : List Char} {Q : List Token → Prop} (hb : Reads b Q) (n : Nat) :
    Reads ((String.join (List.replicate n "not ")).toList ++ b) fun ts =>
      ∃ us vs, ts = us ++ vs ∧ LeadingWords us (List.replicate n .not) ∧ Q vs := by
  induction n with
  | zero => exact hb.imp fun ts hts => ⟨[], ts, rfl, .nil, hts⟩
  | succ n ih =>
      have htext : (String.join (List.replicate (n + 1) "not ")).toList ++ b =
          (word .not).toList ++ ' ' :: ((String.join (List.replicate n "not ")).toList ++ b) := by
        simp [List.replicate_succ, String.join_cons, word]
      rw [htext]
      refine ((reads_leadingWord .not).spaced ih).imp ?_
      rintro _ ⟨_, _, rfl, ⟨t, rfl, ht⟩, us, vs, rfl, hus, hvs⟩
      exact ⟨t :: us, vs, rfl, .cons ht hus, hvs⟩

theorem plainName_of_word (word : String) (span : Span)
    (hfree : reservedWords.any (Text.sameIgnoringCase · word) = false)
    (hop : Comparison.ofSpelling word = .missing) : PlainName ⟨.name, word, span⟩ :=
  .inr ⟨rfl, hfree, hop⟩

def negated (n : Nat) (left : FieldRef) (span : Span) : Expr :=
  (List.replicate n Expr.Leading.not).foldr (fun leading e => leading.apply e)
    (Expr.compare .contains left (.string { span } "a"))

theorem reads_negated {n : Nat} (hn : n ≤ maxNesting) :
    Reads ("x".toList ++ ' ' :: ((String.join (List.replicate n "not ")).toList ++
        ("contains".toList ++ ' ' :: (Token.quoted "a").toList))) fun ts =>
      ∃ left span, Condition PlainName ts (negated n left span) := by
  have hname : Reads "x".toList (Scan.Single .name "x") := Scan.reads_word (by decide)
  have hword : Reads "contains".toList (Scan.Single .name "contains") :=
    Scan.reads_word (by decide)
  refine (hname.spaced (reads_nots (hword.spaced (Scan.reads_quoted "a")) n)).imp ?_
  rintro _ ⟨_, _, rfl, ⟨place, rfl⟩, us, _, rfl, hleading, _, _, rfl, ⟨after, rfl⟩, span, rfl⟩
  have hfield := Field.plain (plainName_of_word "x" place (by decide) (by decide))
  have hspells : Spells "contains" .contains := ⟨"contains", by decide, by decide⟩
  have hop : Operator (!(List.replicate n Expr.Leading.not).isEmpty)
      [⟨.name, "contains", after⟩] .contains :=
    .single (.word rfl hspells)
  exact ⟨_, span, .mk hfield hleading (by simpa using hn) hop
    (.expression rfl (.value (.string rfl)))⟩

/-- The field has its parentheses and operators where they are read. -/
theorem parse_parenthesized {n : Nat} (hn : n ≤ maxNesting) :
    ∃ query left span m, m.parens = true ∧
      Select.parse ("select * from WorkItems where (x " ++ String.join (List.replicate n "not ") ++
        "contains 'a')") = .ok query ∧
      query.filter = some ((negated n left span).withMark m) := by
  have htext : ("select * from WorkItems where (x " ++ String.join (List.replicate n "not ") ++
      "contains 'a')").toList = "select".toList ++ ' ' :: ("*".toList ++ ' ' :: ("from".toList ++
        ' ' :: ("WorkItems".toList ++ ' ' :: ("where".toList ++ ' ' ::
          ('(' :: (("x".toList ++ ' ' :: ((String.join (List.replicate n "not ")).toList ++
            ("contains".toList ++ ' ' :: (Token.quoted "a").toList))) ++ [')'])))))) := by
    simp [Token.quoted, Token.doubleQuotes]
  have hselect := Scan.reads_keyword "select" (by decide) (by decide)
  have hstar : Reads "*".toList (Scan.Single .operation "*") := Scan.reads_symbol (by decide)
  have hfrom := Scan.reads_keyword "from" (by decide) (by decide)
  have htable : Reads "WorkItems".toList (Scan.Single .name "WorkItems") :=
    Scan.reads_word (by decide)
  have hwhere := Scan.reads_keyword "where" (by decide) (by decide)
  have hread := hselect.spaced (hstar.spaced (hfrom.spaced (htable.spaced
    (hwhere.spaced (reads_negated hn).parens))))
  rw [← htext] at hread
  obtain ⟨ts, htokens, _, _, rfl, ⟨select, rfl, hselect⟩, _, _, rfl, ⟨star, rfl⟩, _, _, rfl,
    ⟨from_, rfl, hfrom⟩, _, _, rfl, ⟨place, rfl⟩, _, _, rfl, ⟨where_, rfl, hwhere⟩,
    opening, us, closing, rfl, hopening, ⟨left, span, hcondition⟩, hclosing⟩ := hread.tokens
  have htable := plainName_of_word "WorkItems" place (by decide) (by decide)
  have hoperand : Operand PlainName (127 + 1) (opening :: (us ++ [closing])) _ :=
    .parens hopening (disjunction_of_conjunction
      (conjunction_of_operand (operand_of_condition hcondition))) hclosing
  have hfilter : Filter PlainName _ _ :=
    disjunction_of_conjunction (conjunction_of_operand hoperand)
  have hclauses : Clauses PlainName _ {} _ :=
    .cons (.table hfrom rfl htable) (.cons (.filter hwhere rfl hfilter) .nil)
  have hcolumns : Columns PlainName [⟨.operation, "*", star⟩] none := .all rfl
  have hquery := Query.mk hselect hcolumns hclauses
  rw [List.append_nil] at hquery
  have hparse := Select.parse_eq_ok_iff.mpr ⟨_, htokens, ofTokens_of_query hquery⟩
  exact ⟨_, left, span, _, rfl, hparse, rfl⟩

/-- Every `not` counts once where nothing else has a weight. -/
theorem heaviestPath_negated {weight : Expr → Nat}
    (hnot : ∀ span e, weight (.not { span } e) = 1)
    (hother : ∀ e : Expr, e.parens = false → e.isLeading = false → weight e = 0) (n : Nat)
    (left : FieldRef) (span : Span) : (negated n left span).heaviestPath weight = n := by
  induction n with
  | zero =>
      have hright : (Expr.string { span } "a").heaviestPath weight = 0 := hother _ rfl rfl
      rw [negated, List.replicate_zero, List.foldr_nil, Expr.compare, Expr.heaviestPath, hright,
        hother _ rfl rfl]
  | succ n ih =>
      have hstep : negated (n + 1) left span = Expr.negate (negated n left span) := rfl
      rw [hstep, Expr.negate, Expr.heaviestPath, hnot, ih, Nat.add_comm]

/-- Counting a part once that is both in parentheses and a `not` is not enough: as
printed, each of 128 operators takes a level and the parentheses around them take
one more. -/
theorem Select.parse_render_of_parenthesized_not :
    ∃ query,
      parse ("select * from WorkItems where (x " ++ String.join (List.replicate 128 "not ") ++
        "contains 'a')") = .ok query ∧
      (∀ filter ∈ query.filter,
        filter.heaviestPath (fun e => (e.parens || e.isLeading).toNat) ≤ maxNesting) ∧
      ∃ place, parse query.render = .error (.fault .tooComplexExpression place) := by
  obtain ⟨query, left, span, m, hm, hparse, hfilter⟩ :=
    parse_parenthesized (n := 127 + 1) (by decide)
  have hstep : (negated (127 + 1) left span).withMark m = .not m (negated 127 left span) := rfl
  rw [hstep] at hfilter
  refine ⟨query, hparse, fun filter hmem => ?_, ?_⟩
  · obtain rfl : _ = filter := Option.some.inj (hfilter.symm.trans hmem)
    rw [Expr.heaviestPath, heaviestPath_negated (fun _ _ => rfl)
      (fun e hopen hplain => by simp [hopen, hplain])]
    simp [Expr.isLeading, maxNesting]
  · refine parse_render_tooDeep (printable_of_parse hparse) hfilter ?_
    rw [Expr.nesting, Expr.heaviestPath, heaviestPath_negated (fun _ _ => rfl)
      (fun e hopen hplain => by simp [Expr.levels, hopen, hplain])]
    simp [Expr.levels, Expr.isLeading, Expr.parens, Expr.mark, hm, maxNesting]

end TrackerQuery

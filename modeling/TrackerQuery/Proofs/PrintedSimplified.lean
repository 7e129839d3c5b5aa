import TrackerQuery.Proofs.NumberText
import TrackerQuery.Proofs.Regrouped
import TrackerQuery.Proofs.SpelledOutQuery

/-!
# Printing a simplified filter

Simplification puts values, areas and ends of days where macros, projects and dates
stood.  All of them can be written in a query, so the text of a simplified filter is
read back, and it groups as the filter does.
-/

namespace TrackerQuery

open Scan (IsBracketable)

namespace Session

variable {session : Session} {again : Reduction} {scope : Scope}

/-! ## Values -/

/-- No double that the caller gives to a macro is infinite or not a number. -/
def FiniteContext (context : Context) : Prop :=
  ∀ name value, context.lookup name = some (.double value) → value.isFinite = true

theorem printableValue_inlineVariable (hfinite : FiniteContext session.context) {m : Mark}
    {v : Variable} (hv : (Expr.var m v).unresolved.PrintableValue) :
    (session.inlineVariable m v).unresolved.PrintableValue := by
  unfold inlineVariable
  split
  · exact hv
  · rename_i target _
    cases hlookup : session.context.lookup target with
    | none =>
        dsimp only
        split
        · exact .string
        · split
          · exact .string
          · exact hv
    | some value =>
        cases value with
        | dateTime t => exact .string
        | string text => exact .string
        | number n => exact .number (Decimal.isNumber_toString n)
        | double x => exact .number (Decimal.isNumber_renderFloat (hfinite target x hlookup))

/-- Values are replaced by values. -/
theorem printableValue_of_simplifyWith (hfinite : FiniteContext session.context) {e s : Expr}
    (he : e.unresolved.PrintableValue)
    (hsimplify : Expr.simplifyWith (session.reduce again) scope e = .ok s) :
    s.unresolved.PrintableValue := by
  cases e with
  | var m v =>
      cases hsimplify
      exact printableValue_inlineVariable hfinite he
  | string | number | boolean =>
      cases hsimplify
      exact he
  | _ => cases he

/-- A simplified chain of arithmetic can be printed. -/
theorem printableSum_of_simplifyWith (hfinite : FiniteContext session.context) {n : Nat} {e s : Expr}
    (he : e.unresolved.PrintableSum n)
    (hsimplify : Expr.simplifyWith (session.reduce again) scope e = .ok s) :
    s.unresolved.PrintableSum n := by
  induction e generalizing n s with
  | arithmetic m op left right type ihleft ihright =>
      rw [Expr.unresolved] at he
      cases he with
      | value he => cases he
      | arithmetic hop hleft hright =>
          obtain ⟨left', hleft', hsimplify⟩ := bind_eq_ok_iff.mp hsimplify
          obtain ⟨right', hright', hfold⟩ := bind_eq_ok_iff.mp hsimplify
          obtain ⟨_, _, rfl⟩ | ⟨_, sum, rfl⟩ | rfl := foldArithmetic_eq_ok hfold
          · exact .value .string
          · exact .value (.number (Decimal.isNumber_renderFloat sum.2))
          · exact .arithmetic hop (ihleft hleft hleft')
              (printableValue_of_simplifyWith hfinite hright hright')
  | _ =>
      cases he with
      | value he => exact .value (printableValue_of_simplifyWith hfinite he hsimplify)

/-- A simplified right side can be printed. -/
theorem printableRight_of_simplifyWith (hfinite : FiniteContext session.context) {op : Comparison}
    {right s : Expr} (hright : right.unresolved.PrintableRight op)
    (hsimplify : Expr.simplifyWith (session.reduce again) scope right = .ok s) :
    s.unresolved.PrintableRight op := by
  generalize heq : right.unresolved = e at hright
  cases hright with
  | value hop he =>
      subst heq
      exact .value hop (printableValue_of_simplifyWith hfinite he hsimplify)
  | sum hop he =>
      subst heq
      exact .sum hop (printableSum_of_simplifyWith hfinite he hsimplify)
  | field hop hfield hdirection =>
      cases right with
      | field m f =>
          cases hsimplify
          cases heq
          exact .field hop hfield hdirection
      | _ => cases heq
  | list hitems hall =>
      cases right with
      | list m items =>
          rw [Expr.unresolved, Expr.unresolvedAll_eq_map] at heq
          cases heq
          obtain ⟨items', hitems', hreduce⟩ := bind_eq_ok_iff.mp hsimplify
          cases hreduce
          have hne : items' ≠ [] := by
            rintro rfl
            cases items with
            | nil => exact hitems rfl
            | cons item items =>
                obtain ⟨_, -, hothers⟩ := bind_eq_ok_iff.mp hitems'
                obtain ⟨_, -, hothers⟩ := bind_eq_ok_iff.mp hothers
                cases hothers
          have hsums : ∀ s ∈ items', s.unresolved.PrintableSum maxNesting := by
            refine Expr.forall_of_simplifyAll (fun item hitem s hs => ?_) hitems'
            exact printableSum_of_simplifyWith hfinite (hall _ (List.mem_map_of_mem hitem)) hs
          rw [Expr.unresolved, Expr.unresolvedAll_eq_map]
          exact .list (by simpa using hne) (by simpa using hsums)
      | _ => cases heq

/-! ## Conditions -/

theorem printable_unresolved_of_areaField {left area : FieldRef}
    (hnames : ∀ definition ∈ session.catalog.definitions,
      IsBracketable definition.referenceName.toList)
    (harea : session.areaField scope left = .ok area) :
    area.unresolved.Printable ∧ area.direction = .unspecified := by
  unfold areaField at harea
  split at harea
  · cases harea
  · rename_i definition hdefinition
    have hname := hnames definition (List.mem_of_find?_eq_some hdefinition)
    exact printable_unresolved_of_bind hname harea

/-- Simplification keeps conditions that can be printed. -/
theorem lasting_written (hfinite : FiniteContext session.context)
    (hnames : ∀ definition ∈ session.catalog.definitions,
      IsBracketable definition.referenceName.toList) :
    session.Lasting scope Expr.Written where
  value h hsimplify :=
    { h with right := printableRight_of_simplifyWith hfinite h.right hsimplify }
  item {m left items item} h hitem := by
    have hright := h.right
    rw [Expr.unresolved, Expr.unresolvedAll_eq_map] at hright
    have hsum : item.unresolved.PrintableSum maxNesting := by
      cases hright with
      | list _ hall => exact hall _ (List.mem_map_of_mem hitem)
      | value hop => cases hop <;> contradiction
      | sum hop => cases hop
    exact ⟨⟨h.field.name, h.field.qualifier, rfl, rfl⟩, rfl, by decide, .sum rfl hsum⟩
  project _ harea := by
    obtain ⟨hfield, hdirection⟩ := printable_unresolved_of_areaField hnames harea
    exact ⟨hfield, hdirection, by decide, .value (.inr rfl) .string⟩
  day {_ left _ op t span} h hop := by
    have hright : (session.dateLiteral t span).unresolved.PrintableRight op := by
      obtain rfl | rfl := hop
      · exact .sum rfl (.value .string)
      · exact .sum rfl (.value .string)
    have hmissing : op ≠ .missing := by
      obtain rfl | rfl := hop
      · decide
      · decide
    exact ⟨⟨h.field, h.direction, hmissing, hright⟩,
      ⟨⟨h.field.name, h.field.qualifier, rfl, rfl⟩, rfl, hmissing, hright⟩⟩

/-! ## Clauses -/

theorem legible_of_tidy {e : Expr} (he : e.Everywhere (session.Tidy scope False Expr.Written))
    (htruth : e.truth? = none) : e.Legible := by
  induction e with
  | condition m op left right =>
      obtain ⟨-, -, hwritten⟩ := he
      exact .condition hwritten
  | junction m connective operands ih =>
      obtain ⟨⟨hmany, htruths⟩, hoperands⟩ := he
      refine .junction hmany fun operand hoperand => ?_
      exact ih operand hoperand (Expr.allEverywhere_iff.mp hoperands operand hoperand)
        (htruths operand hoperand)
  | not m operand ih =>
      obtain ⟨⟨htruth, -⟩, hoperand⟩ := he
      exact .not (ih hoperand htruth)
  | ever m operand ih =>
      obtain ⟨htruth, hoperand⟩ := he
      exact .ever (ih hoperand htruth)
  | truth m value => cases htruth
  | _ => exact he.elim

end Session

/-- The text of a legible filter is read back just if it is not too deep, and what is read
groups as the filter does. -/
theorem Select.parse_render_legible {filter : Expr} (hfilter : filter.Legible) :
    (∃ query clause, parse ("select * from WorkItems where " ++ filter.render) = .ok query ∧
      query.filter = some clause ∧ clause.grouped = filter.grouped) ↔
      filter.printedNesting .comma ≤ maxNesting := by
  have hprintable := Expr.printable_asPrinted hfilter
  have hnesting : filter.asPrinted.nesting = filter.printedNesting .comma := by
    have hopen : filter.asPrinted.enclosed .comma = filter.asPrinted := by
      unfold Expr.enclosed
      rw [if_neg]
      cases filter.asPrinted.precedence <;> simp [Precedence.weaker, Precedence.rank]
    rw [← Expr.nesting_asPrinted hfilter, hopen]
  rw [← Expr.render_asPrinted hfilter, ← render_ofFilter, ← hnesting]
  constructor
  · rintro ⟨query, clause, hparse, -⟩
    apply Nat.le_of_not_lt
    intro hdeep
    obtain ⟨place, hfail⟩ := parse_render_tooDeep (printable_ofFilter hprintable) rfl hdeep
    rw [hfail] at hparse
    cases hparse
  · intro hdeep
    obtain ⟨query, hparse, hsame⟩ :=
      (parse_render_iff_nesting (printable_ofFilter hprintable)).mpr (by
        rintro _ ⟨⟩
        exact hdeep)
    have hclause : query.filter.map Expr.unplaced = some filter.asPrinted.unplaced :=
      congrArg Select.filter hsame
    obtain ⟨clause, hclause, hunplaced⟩ := Option.map_eq_some_iff.mp hclause
    refine ⟨query, clause, hparse, hclause, ?_⟩
    calc clause.grouped = clause.unplaced.grouped := (Expr.grouped_unplaced clause).symm
      _ = filter.asPrinted.unplaced.grouped := by rw [hunplaced]
      _ = filter.asPrinted.grouped := Expr.grouped_unplaced _
      _ = filter.grouped := Expr.grouped_asPrinted filter

/-- The text of an optimized filter that is no truth value is read back just if it is not too
deep, and what is read groups as the filter does. -/
theorem Compiler.grouped_parse_render {compiler : Compiler} {text : String} {optimized : Select}
    {filter : Expr}
    (hnames : ∀ definition ∈ compiler.catalog.definitions,
      IsBracketable definition.referenceName.toList)
    (hfinite : Session.FiniteContext compiler.context)
    (hoptimize : compiler.optimize text = .ok optimized)
    (hfilter : optimized.filter = some filter) (htruth : filter.truth? = none) :
    (∃ query clause,
      Select.parse ("select * from WorkItems where " ++ filter.render) = .ok query ∧
        query.filter = some clause ∧ clause.grouped = filter.grouped) ↔
      filter.printedNesting .comma ≤ maxNesting := by
  obtain ⟨session, hsession, hoptimize⟩ := bind_eq_ok_iff.mp hoptimize
  obtain ⟨zone, -, hstart⟩ := bind_eq_ok_iff.mp hsession
  cases hstart
  obtain ⟨scope, bound, hresolved, -, hwritten, hsimplify⟩ :=
    Session.optimize_written hoptimize hfilter
  apply Select.parse_render_legible
  have htidy := Session.everywhere_tidy_of_simplify (Session.lasting_written hfinite hnames)
    hresolved hwritten hsimplify
  exact Session.legible_of_tidy htidy htruth

/-- A negated day becomes a choice under `not`, a list stands among other choices, a double
and a negative number take the place of macros, and a project becomes an area. -/
theorem Compiler.grouped_parse_render_choices :
    ∃ optimized filter query clause,
      let compiler : Compiler :=
        { catalog := { Catalog.dated with currentUser := "Jane", areas := [.mk 1 "Fabrikam" []] },
          settings := { dayPrecision := true, timeZone := "Etc/GMT+5" },
          context := [("x", .double (-0.5)), ("n", .number (-3))] }
      let text := "select * from WorkItems where not [Created Date] <> '2024-02-29' and " ++
        "([System.Title] in ('5' + @x, 'b') or not ever [Assigned To] = @me) and " ++
        "[Team Project] <> 'Fabrikam' and [System.Id] > @n"
      (∀ definition ∈ compiler.catalog.definitions,
        IsBracketable definition.referenceName.toList) ∧
      Session.FiniteContext compiler.context ∧
      compiler.optimize text = .ok optimized ∧ optimized.filter = some filter ∧
      filter.truth? = none ∧ filter.printedNesting .comma ≤ maxNesting ∧
      Select.parse ("select * from WorkItems where " ++ filter.render) = .ok query ∧
      query.filter = some clause ∧ clause.grouped = filter.grouped := by
  have hfinite : Session.FiniteContext [("x", .double (-0.5)), ("n", .number (-3))] := by
    intro name value hlookup
    rw [List.lookup_cons] at hlookup
    split at hlookup
    · cases hlookup
      decide +kernel
    · rw [List.lookup_cons] at hlookup
      split at hlookup
      · cases hlookup
      · cases hlookup
  have hcompiles : (do
      let compiler : Compiler :=
        { catalog := { Catalog.dated with currentUser := "Jane", areas := [.mk 1 "Fabrikam" []] },
          settings := { dayPrecision := true, timeZone := "Etc/GMT+5" },
          context := [("x", .double (-0.5)), ("n", .number (-3))] }
      let text := "select * from WorkItems where not [Created Date] <> '2024-02-29' and " ++
        "([System.Title] in ('5' + @x, 'b') or not ever [Assigned To] = @me) and " ++
        "[Team Project] <> 'Fabrikam' and [System.Id] > @n"
      guard (∀ definition ∈ compiler.catalog.definitions,
        IsBracketable definition.referenceName.toList)
      let optimized ← (compiler.optimize text).toOption
      let filter ← optimized.filter
      guard (filter.truth? = none)
      guard (filter.printedNesting .comma ≤ maxNesting)).isSome = true := by
    decide +kernel
  obtain ⟨_, hcompiles⟩ := Option.isSome_iff_exists.mp hcompiles
  obtain ⟨_, hnames, hcompiles⟩ := Option.bind_eq_some_iff.mp hcompiles
  obtain ⟨optimized, hoptimize, hcompiles⟩ := toOption_bind_eq_some_iff.mp hcompiles
  obtain ⟨filter, hfilter, hcompiles⟩ := Option.bind_eq_some_iff.mp hcompiles
  obtain ⟨_, htruth, hcompiles⟩ := Option.bind_eq_some_iff.mp hcompiles
  have hnames := guard_eq_some_iff.mp hnames
  have htruth := guard_eq_some_iff.mp htruth
  have hnesting := guard_eq_some_iff.mp hcompiles
  obtain ⟨query, clause, hparse, hclause, hsame⟩ :=
    (grouped_parse_render hnames hfinite hoptimize hfilter htruth).mpr hnesting
  exact ⟨optimized, filter, query, clause, hnames, hfinite, hoptimize, hfilter, htruth, hnesting,
    hparse, hclause, hsame⟩

end TrackerQuery

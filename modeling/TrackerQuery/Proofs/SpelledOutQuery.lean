import TrackerQuery.Proofs.RoundTrip
import TrackerQuery.Proofs.SpelledOutSimplified

/-!
# Queries with a list spelled out

Spelling out one `in` list of a query, in parentheses, does not change whether the query is
accepted, whether it can be simplified, what its filter is simplified to up to places and
parentheses, or what it compiles to.  The parentheses take a level of nesting, so the text of
the new query can be too deep for the parser where that of the old one was not; no other
difference can be told.
-/

namespace TrackerQuery

/-! ## Spelling out -/

namespace Expr

def spelledOut (left : FieldRef) (items : List Expr) : Expr :=
  (joined .or (items.map (compare .equals left))).withParens true

/-- The expression with the list at a path spelled out.  The path says which operand to go to
at each `and`, `or` and `not`. -/
def spellOutAt : (path : List Nat) → Expr → Option Expr
  | [], .condition _ .oneOf left (.list _ items) => some (spelledOut left items)
  | 0 :: path, .not m operand => (spellOutAt path operand).map (.not m)
  | i :: path, .junction m connective operands =>
      (operands[i]?.bind (spellOutAt path)).map fun e =>
        .junction m connective (operands.set i e)
  | _, _ => none

theorem isConst_of_printableValue {e : Expr} (he : e.PrintableValue) : e.isConst = true := by
  cases he <;> rfl

theorem isValue_of_printableSum {n : Nat} {e : Expr} (he : e.PrintableSum n) :
    e.isValue = true := by
  induction he with
  | value he => cases he <;> rfl
  | arithmetic _ _ hright ih =>
      have hleft := (Bool.and_eq_true_iff.mp ih).2
      have hconst := Bool.and_eq_true_iff.mpr ⟨hleft, isConst_of_printableValue hright⟩
      exact Bool.and_eq_true_iff.mpr ⟨rfl, hconst⟩

theorem spelledOut_list {m listMark : Mark} {left : FieldRef} {items : List Expr}
    (he : Printable (.condition m .oneOf left (.list listMark items))) :
    SpelledOut (.condition m .oneOf left (.list listMark items)) (spelledOut left items) ∧
      (spelledOut left items).Printable ∧ ∀ limit, (spelledOut left items).Fits limit := by
  cases he with
  | condition hleft hdirection hop hright =>
      cases hright with
      | value hop => simp at hop
      | sum hop => cases hop
      | list hitems hall =>
          have hvalues : ∀ item ∈ items, item.isValue = true := fun item hitem =>
            isValue_of_printableSum (hall item hitem)
          refine ⟨?_, (Grammar.printable_joined ?_ ?_).1.withMark _,
            fun limit => .inl (parens_withMark _ _)⟩
          · match items with
            | [] => exact absurd rfl hitems
            | [item] => exact .one hdirection (hvalues item (by simp))
            | first :: second :: others =>
                exact .many hdirection hvalues (by simp) (asserts_compare left _)
          · simpa using hitems
          · intro e he
            obtain ⟨item, hitem, rfl⟩ := List.mem_map.mp he
            exact ⟨.condition hleft hdirection (by decide) (.sum rfl (hall item hitem)), .inr rfl⟩

/-- Spelling out ends at a list and goes through `not` and one operand of a connective. -/
theorem spellOutAt_eq_some {path : List Nat} {e e' : Expr} (h : e.spellOutAt path = some e') :
    (∃ m listMark left items, e = .condition m .oneOf left (.list listMark items) ∧
      e' = spelledOut left items) ∨
    ∃ i rest operand operand', path = i :: rest ∧ operand.spellOutAt rest = some operand' ∧
      ((∃ m, e = .not m operand ∧ e' = .not m operand') ∨
        ∃ m connective before after, e = .junction m connective (before ++ operand :: after) ∧
          e' = .junction m connective (before ++ operand' :: after)) := by
  unfold spellOutAt at h
  split at h
  · cases h
    exact .inl ⟨_, _, _, _, rfl, rfl⟩
  · obtain ⟨operand', hoperand, rfl⟩ := Option.map_eq_some_iff.mp h
    exact .inr ⟨0, _, _, operand', rfl, hoperand, .inl ⟨_, rfl, rfl⟩⟩
  · rename_i i rest m connective operands
    obtain ⟨operand', hfound, rfl⟩ := Option.map_eq_some_iff.mp h
    obtain ⟨operand, hat, hoperand⟩ := Option.bind_eq_some_iff.mp hfound
    obtain ⟨hlength, rfl⟩ := List.getElem?_eq_some_iff.mp hat
    refine .inr ⟨i, rest, _, operand', rfl, hoperand, .inr ⟨m, connective, operands.take i,
      operands.drop (i + 1), ?_, ?_⟩⟩
    · rw [List.getElem_cons_drop, List.take_append_drop]
    · rw [List.set_eq_take_append_cons_drop, if_pos hlength]
  · cases h

/-- Spelling out a list keeps a filter printable. -/
theorem spelledOut_of_spellOutAt {path : List Nat} {e e' : Expr} (he : e.Printable)
    (h : e.spellOutAt path = some e') :
    e.SpelledOut e' ∧ e'.Printable ∧ ∀ limit, e.Fits limit → e'.Fits limit := by
  induction path generalizing e e' with
  | nil =>
      obtain ⟨m, listMark, left, items, rfl, rfl⟩ | ⟨_, _, _, _, hpath, -⟩ := spellOutAt_eq_some h
      · obtain ⟨hspelled, hprintable, hfits⟩ := spelledOut_list he
        exact ⟨hspelled, hprintable, fun limit _ => hfits limit⟩
      · cases hpath
  | cons i path ih =>
      obtain ⟨m, listMark, left, items, rfl, rfl⟩ | ⟨_, _, operand, operand', hpath, hoperand,
        ⟨m, rfl, rfl⟩ | ⟨m, connective, before, after, rfl, rfl⟩⟩ := spellOutAt_eq_some h
      · obtain ⟨hspelled, hprintable, hfits⟩ := spelledOut_list he
        exact ⟨hspelled, hprintable, fun limit _ => hfits limit⟩
      · cases hpath
        cases he with
        | not he hfits =>
            obtain ⟨hspelled, hprintable, hfits'⟩ := ih he hoperand
            exact ⟨.not hspelled, .not hprintable (hfits' _ hfits), fun _ h => h⟩
      · cases hpath
        cases he with
        | junction hmany hall hfits =>
            simp only [List.forall_mem_append, List.forall_mem_cons] at hall hfits
            obtain ⟨hbefore, he, hafter⟩ := hall
            obtain ⟨hbeforeFits, heFits, hafterFits⟩ := hfits
            obtain ⟨hspelled, hprintable, hfits'⟩ := ih he hoperand
            refine ⟨.junction hspelled, .junction (by simpa using hmany) ?_ ?_, fun _ h => ?_⟩
            · simp only [List.forall_mem_append, List.forall_mem_cons]
              exact ⟨hbefore, hprintable, hafter⟩
            · simp only [List.forall_mem_append, List.forall_mem_cons]
              exact ⟨hbeforeFits, hfits' _ heFits, hafterFits⟩
            · cases connective <;> exact h

end Expr

namespace Select

def spellOutAt (path : List Nat) (query : Select) : Option Select :=
  query.filter.bind fun filter =>
    (filter.spellOutAt path).map fun filter => { query with filter := some filter }

def SpelledOut (query query' : Select) : Prop :=
  ∃ filter, Option.Rel Expr.SpelledOut query.filter filter ∧ query' = { query with filter }

theorem spelledOut_of_spellOutAt {path : List Nat} {query spelled : Select}
    (hquery : query.Printable) (h : query.spellOutAt path = some spelled) :
    query.SpelledOut spelled ∧ spelled.Printable := by
  obtain ⟨filter, hfilter, h⟩ := Option.bind_eq_some_iff.mp h
  obtain ⟨filter', hspelled, rfl⟩ := Option.map_eq_some_iff.mp h
  obtain ⟨hspelled, hprintable, -⟩ :=
    Expr.spelledOut_of_spellOutAt (hquery.filter filter hfilter) hspelled
  refine ⟨⟨some filter', hfilter ▸ .some hspelled, rfl⟩, { hquery with filter := fun e he => ?_ }⟩
  cases he
  exact hprintable

/-- A printable query is read back from its text exactly if the text is not too deep. -/
theorem parse_render_iff_nesting {query : Select} (hquery : query.Printable) :
    (∃ again, parse query.render = .ok again ∧ again.unplaced = query.unplaced) ↔
      ∀ filter ∈ query.filter, filter.nesting ≤ maxNesting := by
  constructor
  · rintro ⟨again, hagain, -⟩ filter hfilter
    refine Nat.le_of_not_lt fun hdeep => ?_
    obtain ⟨place, hfail⟩ := parse_render_tooDeep hquery hfilter hdeep
    rw [hfail] at hagain
    cases hagain
  · intro hnesting
    obtain ⟨ts, htokens, again, hagain, heq⟩ := (reads_query hquery hnesting).tokens
    exact ⟨again, parse_eq_ok_iff.mpr ⟨ts, htokens, Grammar.ofTokens_of_query hagain⟩, heq⟩

end Select

/-! ## Resolving and simplifying -/

namespace Session

variable {session : Session} {query query' : Select}

theorem matches_bindFilter {scope : Scope} {filter filter' : Expr} (h : filter.SpelledOut filter') :
    Matches Expr.SpelledOut (Select.bindFilter session.schema scope filter)
      (Select.bindFilter session.schema scope filter') := by
  unfold Select.bindFilter
  rw [← Attempt.toExcept_check, ← Attempt.toExcept_check]
  exact matches_check_boolean (matches_bind h)

theorem matches_bindQuery (h : query.SpelledOut query') :
    Matches Select.SpelledOut (session.bind query) (session.bind query') := by
  obtain ⟨filter, hfilter, rfl⟩ := h
  unfold Session.bind
  rw [Select.bind_eq, Select.bind_eq]
  refine .bind_refl (query.bindTable session.schema) fun table _ => .bind_refl _ fun columns _ => ?_
  refine (Matches.onClause hfilter fun _ _ => matches_bindFilter).bind fun _ _ hbound => ?_
  refine .bind_refl _ fun grouping _ => .bind_refl _ fun ordering _ => ?_
  exact .bind_refl _ fun asOf _ => .bind_refl _ fun _ _ => .ok ⟨_, hbound, rfl⟩

theorem matches_simplifyQuery (h : query.SpelledOut query') :
    Matches (Select.Alike FieldRef.Moved) (session.simplifyQuery query)
      (session.simplifyQuery query') := by
  obtain ⟨filter, hfilter, rfl⟩ := h
  have hsame : query.Alike FieldRef.Moved query := Select.alike_of_unplaced (fun _ _ h => h) rfl
  refine (Matches.onClause hfilter fun _ _ => matches_simplify).bind fun _ _ hsimplified => ?_
  refine .bind_refl _ fun asOf _ => .ok { hsame with filter := hsimplified, asOf := ?_ }
  exact rel_of_map_eq (fun _ _ => Expr.alike_of_unplaced fun _ _ h => h) rfl

/-- Queries that differ in places and parentheses only, by way of a third one. -/
def Apart (query query' : Select) : Prop :=
  ∃ between, query.Alike FieldRef.Moved between ∧ between.Alike FieldRef.Moved query'

theorem Apart.filter_eq (h : Apart query query') :
    query.filter.map Expr.bare = query'.filter.map Expr.bare := by
  have hfilter : ∀ {a b : Select}, a.Alike FieldRef.Moved b →
      a.filter.map Expr.bare = b.filter.map Expr.bare := by
    intro a b hab
    have hclause := hab.filter
    generalize a.filter = filter at hclause ⊢
    generalize b.filter = filter' at hclause ⊢
    cases hclause with
    | none => rfl
    | some hclause => exact congrArg some hclause.bare_eq
  obtain ⟨between, hfirst, hsecond⟩ := h
  exact (hfilter hfirst).trans (hfilter hsecond)

/-- Queries that are accepted or refused together, whose filters are simplified to the same up
to places and parentheses, and which have the same document. -/
structure Interchangeable (session : Session) (query query' : Select) : Prop where
  bind : (session.bind query).isOk = (session.bind query').isOk
  optimize : Matches (fun query query' =>
    query.filter.map Expr.bare = query'.filter.map Expr.bare)
    (session.bind query >>= session.simplifyQuery) (session.bind query' >>= session.simplifyQuery)
  document : Matches Eq (session.bind query >>= session.simplifyQuery >>= session.document)
    (session.bind query' >>= session.simplifyQuery >>= session.document)

theorem matches_bind_of_unplaced {spelled : Select} (hspelled : query.SpelledOut spelled)
    (hsame : query'.unplaced = spelled.unplaced) :
    Matches (fun _ _ => True) (session.bind query) (session.bind query') := by
  have halike : spelled.Alike FieldRef.Moved query' :=
    Select.alike_of_unplaced (fun _ _ h => h) hsame.symm
  exact (matches_bindQuery hspelled).trans
    (agree_bindQuery (FieldRef.carried_moved _) halike).matches fun _ _ _ _ _ => trivial

theorem matches_optimize {spelled : Select} (hspelled : query.SpelledOut spelled)
    (hsame : query'.unplaced = spelled.unplaced) :
    Matches Apart (session.bind query >>= session.simplifyQuery)
      (session.bind query' >>= session.simplifyQuery) := by
  have hcarried := FieldRef.carried_moved session.catalog
  have halike : spelled.Alike FieldRef.Moved query' :=
    Select.alike_of_unplaced (fun _ _ h => h) hsame.symm
  have hfirst : Matches (Select.Alike FieldRef.Moved) (session.bind query >>= session.simplifyQuery)
      (session.bind spelled >>= session.simplifyQuery) :=
    (matches_bindQuery hspelled).bind fun _ _ => matches_simplifyQuery
  have hsecond : Agree (Select.Alike FieldRef.Moved)
      (session.bind spelled >>= session.simplifyQuery)
      (session.bind query' >>= session.simplifyQuery) :=
    (agree_bindQuery hcarried halike).bind fun _ _ => agree_simplifyQuery hcarried
  exact hfirst.trans hsecond.matches fun _ between _ h h' => ⟨between, h, h'⟩

theorem Apart.matches_document (h : Apart query query') :
    Matches Eq (session.document query) (session.document query') := by
  obtain ⟨between, hfirst, hsecond⟩ := h
  have hcarried := FieldRef.carried_moved session.catalog
  exact (agree_document (hfirst.imp fun _ _ => hcarried.same)).matches.trans
    (agree_document (hsecond.imp fun _ _ => hcarried.same)).matches fun _ _ _ => Eq.trans

/-- Texts of which one spells out a list of the other are interchangeable. -/
theorem interchangeable_of_spelledOut {spelled : Select} (hspelled : query.SpelledOut spelled)
    (hsame : query'.unplaced = spelled.unplaced) : session.Interchangeable query query' where
  bind := (matches_bind_of_unplaced hspelled hsame).isOk_eq
  optimize := (matches_optimize hspelled hsame).imp fun _ _ => Apart.filter_eq
  document := (matches_optimize hspelled hsame).bind fun _ _ => Apart.matches_document

theorem optimize_of_parse {text : String} {query : Select}
    (hparse : Select.parse text = .ok query) :
    session.optimize text = session.bind query >>= session.simplifyQuery := by
  unfold optimize
  rw [hparse]
  rfl

theorem Apart.compiled_same (h : Apart query query') (document : Xml.Element) :
    Compiled.Same
      { query, document, displayFields := session.displayFields query
        sortFields := session.sortFields query }
      { query := query', document, displayFields := session.displayFields query'
        sortFields := session.sortFields query' } := by
  obtain ⟨between, hfirst, hsecond⟩ := h
  have hcarried := FieldRef.carried_moved session.catalog
  have hfirst := hfirst.imp fun _ _ => hcarried.same
  have hsecond := hsecond.imp fun _ _ => hcarried.same
  exact ⟨rfl, (displayFields_eq hfirst).trans (displayFields_eq hsecond),
    (sortFields_eq hfirst).trans (sortFields_eq hsecond)⟩

end Session

/-! ## Compiling -/

namespace Compiler

/-- Texts that are accepted or refused together, whose filters are simplified to the same up to
places and parentheses, and which compile to the same. -/
structure Interchangeable (compiler : Compiler) (text text' : String) : Prop where
  bind : (compiler.bind text).isOk = (compiler.bind text').isOk
  optimize : Matches (fun query query' =>
    query.filter.map Expr.bare = query'.filter.map Expr.bare)
    (compiler.optimize text) (compiler.optimize text')
  compile : compiler.settings.serverSideMacros = false →
    Matches Compiled.Same (compiler.compile text) (compiler.compile text')

theorem bind_of_parse {compiler : Compiler} {text : String} {query : Select}
    (hparse : Select.parse text = .ok query) :
    compiler.bind text = compiler.session >>= fun session => session.bind query := by
  unfold bind
  rw [hparse]
  rfl

theorem interchangeable_of_spelledOut {compiler : Compiler} {text text' : String}
    {query query' spelled : Select} (hparse : Select.parse text = .ok query)
    (hparse' : Select.parse text' = .ok query') (hspelled : query.SpelledOut spelled)
    (hsame : query'.unplaced = spelled.unplaced) : compiler.Interchangeable text text' := by
  refine ⟨?_, ?_, fun hmacros => ?_⟩
  · rw [bind_of_parse hparse, bind_of_parse hparse']
    exact (Matches.bind_refl compiler.session fun session _ =>
      Session.matches_bind_of_unplaced hspelled hsame).isOk_eq
  · refine .bind_refl compiler.session fun session _ => ?_
    rw [Session.optimize_of_parse hparse, Session.optimize_of_parse hparse']
    exact (Session.matches_optimize hspelled hsame).imp fun _ _ => Session.Apart.filter_eq
  · refine .bind_refl compiler.session fun session hsession => ?_
    have hmacros : session.settings.serverSideMacros = false :=
      (session_eq_ok hsession).2 ▸ hmacros
    rw [Session.compile_eq hmacros, Session.compile_eq hmacros, Session.optimize_of_parse hparse,
      Session.optimize_of_parse hparse']
    refine (Session.matches_optimize hspelled hsame).bind fun query query' hquery => ?_
    refine hquery.matches_document.bind fun document _ hdocument => ?_
    exact hdocument ▸ .ok (hquery.compiled_same document)

/-- A list may be spelled out.  A query with an `in` list anywhere in the `and`, `or` and `not`
of its filter, and the query with the list spelled out in parentheses, in whatever text, are
accepted or refused together, simplified to the same filter up to places and parentheses, and
compiled to the same document.  The printed text of the second query can be read exactly if no
path of its filter nests deeper than the parser allows, the new parentheses included. -/
theorem interchangeable_of_spellOutAt {compiler : Compiler} {text : String} {query spelled : Select}
    {path : List Nat} (hparse : Select.parse text = .ok query)
    (hspelled : query.spellOutAt path = some spelled) :
    ((∃ query', Select.parse spelled.render = .ok query' ∧
        query'.unplaced = spelled.unplaced) ↔
      ∀ filter ∈ spelled.filter, filter.nesting ≤ maxNesting) ∧
    ∀ query', query'.unplaced = spelled.unplaced →
      (∀ session, compiler.session = .ok session → session.Interchangeable query query') ∧
      ∀ text', Select.parse text' = .ok query' → compiler.Interchangeable text text' := by
  obtain ⟨hspells, hprintable⟩ :=
    Select.spelledOut_of_spellOutAt (Select.printable_of_parse hparse) hspelled
  refine ⟨Select.parse_render_iff_nesting hprintable, fun query' hsame => ⟨fun session _ => ?_, ?_⟩⟩
  · exact Session.interchangeable_of_spelledOut hspells hsame
  · exact fun text' hparse' => interchangeable_of_spelledOut hparse hparse' hspells hsame

/-- A list of two values in a negated choice. -/
theorem interchangeable_of_spellOutAt_negated :
    ∃ query spelled query' compiled compiled',
      let compiler : Compiler := {}
      let text := "select * from WorkItems where not (Id in (1, 2 + 3) or Title = @me)"
      let text' := "select * from WorkItems where not (([Id] = 1 or [Id] = 2 + 3) or [Title] = @me)"
      Select.parse text = .ok query ∧ query.spellOutAt [0, 0] = some spelled ∧
      Select.parse text' = .ok query' ∧ query'.unplaced = spelled.unplaced ∧
      compiler.Interchangeable text text' ∧ compiler.compile text = .ok compiled ∧
      compiler.compile text' = .ok compiled' ∧ compiled.Same compiled' := by
  let compiler : Compiler := {}
  let text := "select * from WorkItems where not (Id in (1, 2 + 3) or Title = @me)"
  let text' := "select * from WorkItems where not (([Id] = 1 or [Id] = 2 + 3) or [Title] = @me)"
  have hspelled : (do
      let query ← (Select.parse text).toOption
      let spelled ← query.spellOutAt [0, 0]
      guard (spelled.render = text' ∧
        spelled.filter.all (fun filter : Expr => filter.nesting ≤ maxNesting))).isSome = true := by
    decide +kernel
  have hcompile : (compiler.compile text).toOption.isSome = true := by decide +kernel
  obtain ⟨_, hspelled⟩ := Option.isSome_iff_exists.mp hspelled
  obtain ⟨query, hquery, hspelled⟩ := toOption_bind_eq_some_iff.mp hspelled
  obtain ⟨spelled, hspelled, hchecks⟩ := Option.bind_eq_some_iff.mp hspelled
  obtain ⟨hrender, hnesting⟩ := guard_eq_some_iff.mp hchecks
  have hnesting : ∀ filter ∈ spelled.filter, filter.nesting ≤ maxNesting := fun filter hfilter =>
    of_decide_eq_true (Option.all_eq_true _ _ |>.mp hnesting filter hfilter)
  obtain ⟨hread, hbehaves⟩ := interchangeable_of_spellOutAt hquery hspelled
  obtain ⟨query', hquery', hsame⟩ := hread.mpr hnesting
  rw [hrender] at hquery'
  have hbehaves : compiler.Interchangeable text text' := (hbehaves query' hsame).2 text' hquery'
  obtain ⟨compiled, hcompiled⟩ := Option.isSome_iff_exists.mp hcompile
  have hcompiled := toOption_eq_some_iff.mp hcompiled
  have hmatches := hbehaves.compile rfl
  rw [hcompiled] at hmatches
  obtain ⟨compiled', hcompiled', hdocument⟩ := hmatches.eq_ok
  exact ⟨query, spelled, query', compiled, compiled', hquery, hspelled, hquery', hsame, hbehaves,
    hcompiled, hcompiled', hdocument⟩

end Compiler

/-! ## Lists as deep as the parser allows -/

namespace Expr

def afterNots (e : Expr) : Nat → Expr
  | 0 => e
  | n + 1 => .not {} (afterNots e n)

variable {e : Expr}

theorem fits_afterNots (hfits : e.Fits .unary) (n : Nat) : (e.afterNots n).Fits .unary := by
  cases n with
  | zero => exact hfits
  | succ n => exact .inr rfl

theorem printable_afterNots (he : e.Printable) (hfits : e.Fits .unary) (n : Nat) :
    (e.afterNots n).Printable := by
  induction n with
  | zero => exact he
  | succ n ih => exact .not ih (fits_afterNots hfits n)

theorem nesting_afterNots (e : Expr) (n : Nat) : (e.afterNots n).nesting = n + e.nesting := by
  induction n with
  | zero => rw [afterNots, Nat.zero_add]
  | succ n ih =>
      have hlevel : levels (.not {} (e.afterNots n)) = 1 := rfl
      rw [nesting] at ih ⊢
      rw [afterNots, heaviestPath, hlevel, ih, ← Nat.add_assoc, Nat.add_comm 1 n]

theorem render_afterNots (hfits : e.Fits .unary) (n : Nat) :
    (e.afterNots n).render = String.join (List.replicate n "not ") ++ e.render := by
  apply String.toList_inj.mp
  induction n with
  | zero => simp [afterNots]
  | succ n ih =>
      rw [afterNots, toList_render_not (fits_afterNots hfits n), ih]
      simp [List.replicate_succ, Grammar.word]

end Expr

namespace Select

def ofFilter (filter : Expr) : Select :=
  { table := some { name := "WorkItems" }, filter := some filter }

theorem render_ofFilter (filter : Expr) :
    (ofFilter filter).render = "select * from WorkItems where " ++ filter.render := by
  have htable : TableRef.render { name := "WorkItems" } = "WorkItems" := by decide
  apply String.toList_inj.mp
  simp [ofFilter, render, renderClause, htable, toString]

theorem printable_ofFilter {filter : Expr} (hfilter : filter.Printable) :
    (ofFilter filter).Printable where
  columns := by simp [ofFilter]
  table := by
    rintro _ ⟨⟩
    exact ⟨⟨by decide, by simp, by decide⟩, rfl⟩
  filter := by
    rintro _ ⟨⟩
    exact hfilter
  grouping := by simp [ofFilter]
  ordering := by simp [ofFilter]
  asOf := by simp [ofFilter]
  modes := by simp [ofFilter]

end Select

namespace Compiler

variable {compiler : Compiler} {query : Select}

/-- The printed text of a query is accepted if the query is and the text can be read. -/
theorem bind_render {session : Session} {bound : Select} (hsession : compiler.session = .ok session)
    (hquery : query.Printable) (hnesting : ∀ filter ∈ query.filter, filter.nesting ≤ maxNesting)
    (hbind : session.bind query = .ok bound) : ∃ again, compiler.bind query.render = .ok again := by
  obtain ⟨parsed, hparse, hsame⟩ := (Select.parse_render_iff_nesting hquery).mpr hnesting
  have hagree := Session.agree_bindQuery (FieldRef.carried_moved session.catalog)
    (Select.alike_of_unplaced (fun _ _ h => h) hsame.symm)
  rw [hbind] at hagree
  obtain ⟨again, hagain, -⟩ := hagree.eq_ok
  refine ⟨again, ?_⟩
  rw [bind_of_parse hparse, hsession]
  exact hagain

theorem bind_render_tooDeep (hquery : query.Printable) {filter : Expr}
    (hfilter : query.filter = some filter) (hdeep : maxNesting < filter.nesting) :
    ∃ place, compiler.bind query.render = .error (.fault .tooComplexExpression place) := by
  obtain ⟨place, hfail⟩ := Select.parse_render_tooDeep hquery hfilter hdeep
  refine ⟨place, ?_⟩
  rw [bind, hfail]
  rfl

/-- The parentheses count: a list that stands as deep as the parser allows cannot be spelled
out. -/
theorem bind_spelledOut_tooDeep :
    ∃ bound place,
      let nots := String.join (List.replicate 128 "not ")
      Compiler.bind {} ("select * from WorkItems where " ++ nots ++ "[System.Id] in (1)") =
        .ok bound ∧
      Compiler.bind {} ("select * from WorkItems where " ++ nots ++ "([System.Id] = 1)") =
        .error (.fault .tooComplexExpression place) := by
  let left : FieldRef := { name := "System.Id" }
  let items := [Expr.number {} "1"]
  let listed : Expr := .condition {} .oneOf left (.list {} items)
  have hdigits : ∀ c ∈ ['1'], Decimal.isDigit c = true := by simp [Decimal.isDigit]
  have hone : Expr.PrintableSum maxNesting (.number {} "1") :=
    .value (.number (.unsigned (.mk hdigits .none .none)))
  have hleft : left.Printable := ⟨⟨by decide, by simp [left], by decide⟩, by simp [left], rfl, rfl⟩
  have hlisted : listed.Printable :=
    .condition hleft rfl (by decide) (.list (by simp [items]) (by simpa [items] using hone))
  obtain ⟨-, hspelled, hfits⟩ := Expr.spelledOut_list hlisted
  have hbind : (do
      let session ← (Compiler.session {}).toOption
      (session.bind (.ofFilter (listed.afterNots 128))).toOption).isSome = true := by
    decide +kernel
  obtain ⟨_, hbind⟩ := Option.isSome_iff_exists.mp hbind
  obtain ⟨session, hsession, hbind⟩ := toOption_bind_eq_some_iff.mp hbind
  have hshallow : ∀ filter ∈ some (listed.afterNots 128), filter.nesting ≤ maxNesting := by
    rintro _ ⟨⟩
    rw [Expr.nesting_afterNots]
    decide
  have hdeep : maxNesting < ((Expr.spelledOut left items).afterNots 128).nesting := by
    rw [Expr.nesting_afterNots]
    decide
  obtain ⟨bound, hbound⟩ := bind_render hsession
    (Select.printable_ofFilter (Expr.printable_afterNots hlisted (.inr rfl) 128)) hshallow
    (toOption_eq_some_iff.mp hbind)
  obtain ⟨place, hrefused⟩ := bind_render_tooDeep
    (Select.printable_ofFilter (Expr.printable_afterNots hspelled (hfits _) 128)) rfl hdeep
  rw [Select.render_ofFilter, Expr.render_afterNots (.inr rfl), ← String.append_assoc] at hbound
  rw [Select.render_ofFilter, Expr.render_afterNots (.inl rfl), ← String.append_assoc] at hrefused
  exact ⟨bound, place, hbound, hrefused⟩

end Compiler

end TrackerQuery

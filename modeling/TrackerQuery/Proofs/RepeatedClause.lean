import TrackerQuery.Proofs.ClauseOrder
import TrackerQuery.Proofs.PlacedFault

/-!
# Repeated clauses

A query has at most one clause of each kind.  A second one is refused as soon as its
keyword has been read, when the tokens before it make up a query with a clause of that
kind.  The fault is placed at the last word of the keyword, which for `group by` and
`order by` is not the word that the clause begins with.
-/

namespace TrackerQuery

open TrackerQuery.Parser

namespace Select

namespace ClauseKind

def repetition : ClauseKind → Fault
  | .from => .duplicateFrom
  | .where => .duplicateWhere
  | .group => .duplicateGroupBy
  | .order => .duplicateOrderBy
  | .asOf => .duplicateAsOf
  | .mode => .duplicateMode

theorem isRepetition_repetition (kind : ClauseKind) : kind.repetition.isRepetition = true := by
  cases kind <;> rfl

theorem repetition_inj {kind other : ClauseKind} (h : kind.repetition = other.repetition) :
    kind = other := by
  cases kind <;> cases other <;> first | rfl | cases h

/-- The last word of the keyword that starts with `word`, where `rest` follows it. -/
def lastWord? (kind : ClauseKind) (word : Token) (rest : List Token) : Option Token :=
  match kind with
  | .group | .order => (keyword? "by" rest).map Prod.fst
  | _ => some word

end ClauseKind

end Select

/-! ## Readers that know of no repetition -/

namespace Parser

def NoRepetition {α : Type} (x : Except Error α) : Prop :=
  ∀ cause place, x = .error (.fault cause place) → cause.isRepetition = false

section Steps

variable {α β : Type} {tokens : List Token}

theorem NoRepetition.ne {x : Except Error α} (hx : NoRepetition x) (kind : Select.ClauseKind)
    (place : Option Span) : x ≠ .error (.fault kind.repetition place) := by
  intro h
  have hcause := hx _ _ h
  rw [kind.isRepetition_repetition] at hcause
  cases hcause

theorem NoRepetition.fail {cause : Fault} (hcause : cause.isRepetition = false) :
    NoRepetition (fail cause tokens : Except Error α) := by
  intro _ _ h
  cases h
  exact hcause

theorem Reads.noRepetition {read : Parser α} (h : Reads read) : NoRepetition (read tokens) :=
  fun _ _ => h.isRepetition_eq

/-- A repetition is never found by the first of two steps that knows of none. -/
theorem NoRepetition.bind_eq_iff {x : Except Error α} {f : α → Except Error β}
    (hx : NoRepetition x) {kind : Select.ClauseKind} {place : Option Span} :
    (x >>= f) = .error (.fault kind.repetition place) ↔
      ∃ a, x = .ok a ∧ f a = .error (.fault kind.repetition place) := by
  cases x with
  | error e =>
      simp only [reduceCtorEq, false_and, exists_false, iff_false]
      intro h
      exact hx.ne kind place (congrArg Except.error (Except.error.inj h))
  | ok a =>
      constructor
      · exact fun h => ⟨a, rfl, h⟩
      · rintro ⟨_, ⟨⟩, h⟩
        exact h

end Steps

end Parser

namespace Select

theorem noRepetition_tokens (text : String) : NoRepetition (tokens text) := by
  intro cause place htokens
  obtain ⟨_, _, heq, hstops⟩ :=
    (Scan.outcome_ofChars 0 text.toList).stopsAt (tokens_eq_error_iff.mp htokens)
  cases heq
  have hlexical := hstops.lexical
  simp only [List.mem_cons, List.not_mem_nil, or_false] at hlexical
  obtain rfl | rfl | rfl := hlexical <;> rfl

theorem noRepetition_columns (tokens : List Token) : NoRepetition (Grammar.columns tokens) := by
  unfold Grammar.columns
  split
  · exact fun _ _ h => nomatch h
  · have hlist : NoRepetition (fieldList .select tokens) := (reads_fieldList _).noRepetition
    cases hread : fieldList .select tokens with
    | error e =>
        rw [hread] at hlist
        exact fun cause place h => hlist cause place (by cases h; rfl)
    | ok read => exact fun _ _ h => nomatch h

/-! ## The second clause of a kind -/

section Clause

variable {query : Select} {word : Token} {kind : ClauseKind} {tokens : List Token}

theorem once_of_isSome {α : Type} {earlier : Option α} (hearlier : earlier.isSome = true)
    (cause : Fault) (word : Token) :
    once earlier cause word = .error (.located cause word.span) := by
  obtain ⟨_, rfl⟩ := Option.isSome_iff_exists.mp hearlier
  rfl

theorem once_of_isNone {α : Type} {earlier : Option α} (hearlier : earlier.isSome = false)
    (cause : Fault) (word : Token) : once earlier cause word = .ok () := by
  rw [once, Option.isSome_eq_false_iff.mp hearlier]
  rfl

/-- A second clause of a kind is refused once all its keyword has been read. -/
theorem clause_of_has (hhas : query.has kind = true) :
    clause query word kind tokens =
      match kind.lastWord? word tokens with
      | some named => .error (.located kind.repetition named.span)
      | none => fail .expectingBy tokens := by
  cases kind with
  | «from» | «where» | asOf | mode =>
      rw [clause, once_of_isSome hhas]
      rfl
  | group | order =>
      rw [clause, expect, ClauseKind.lastWord?]
      cases keyword? "by" tokens with
      | none => rfl
      | some read =>
          show (once _ _ read.1 >>= _) = _
          rw [once_of_isSome hhas]
          rfl

/-- The first clause of a kind is read and put into the query. -/
theorem clause_of_not_has (hhas : query.has kind = false) :
    clause query word kind tokens =
      ClauseBody.read kind tokens >>= fun read => .ok (query.put read.1, read.2) := by
  cases kind with
  | «from» | «where» | asOf | mode =>
      rw [clause, once_of_isNone hhas, ClauseBody.read, bind_assoc]
      rfl
  | group | order =>
      rw [clause, ClauseBody.read, bind_assoc]
      refine congrArg _ (funext fun read => ?_)
      show (once _ _ read.1 >>= _) = _
      rw [once_of_isNone hhas, bind_assoc]
      rfl

/-- A clause is a repetition exactly if there is one of its kind and its keyword is
complete. -/
theorem clause_eq_repetition_iff {other : ClauseKind} {place : Option Span} :
    clause query word kind tokens = .error (.fault other.repetition place) ↔
      other = kind ∧ query.has kind = true ∧
        ∃ named, kind.lastWord? word tokens = some named ∧ place = some named.span := by
  cases hhas : query.has kind with
  | false =>
      have hread : NoRepetition (clause query word kind tokens) := by
        have hbody : Reads fun tokens => ClauseBody.read kind tokens >>= fun read =>
            .ok (query.put read.1, read.2) :=
          (ClauseBody.reads_read kind).bind fun body => reads_here (query.put body)
        rw [clause_of_not_has hhas]
        exact hbody.noRepetition
      simp only [Bool.false_eq_true, false_and, and_false, iff_false]
      exact hread.ne other place
  | true =>
      rw [clause_of_has hhas]
      cases kind.lastWord? word tokens with
      | none =>
          have hfail :
              NoRepetition (fail .expectingBy tokens : Except Error (Select × List Token)) :=
            .fail rfl
          simp only [reduceCtorEq, false_and, exists_false, and_false, iff_false]
          exact hfail.ne other place
      | some named =>
          constructor
          · intro hrepetition
            obtain ⟨hcause, rfl⟩ := Error.fault.inj (Except.error.inj hrepetition)
            exact ⟨ClauseKind.repetition_inj hcause.symm, rfl, named, rfl, rfl⟩
          · rintro ⟨rfl, -, _, hnamed, rfl⟩
            cases hnamed
            rfl

end Clause

/-! ## The clauses before it -/

/-- The tokens say clauses that fit the query, and then another one of a kind that is among
them, which is blamed at the place. -/
structure Repeats (query : Select) (kind : ClauseKind) (place : Option Span)
    (segments : List (List Token)) (word : Token) (rest : List Token) : Prop where
  said : ∃ bodies, List.Forall₂ Says segments bodies ∧ query.Fits bodies ∧
    (bodies.foldl put query).has kind = true
  starts : ClauseKind.ofToken? word = some kind
  blamed : ∃ named, kind.lastWord? word rest = some named ∧ place = some named.span

theorem Repeats.atClause {query : Select} {kind : ClauseKind} {place : Option Span}
    {segments : List (List Token)} {word : Token} {rest : List Token}
    (h : query.Repeats kind place segments word rest) : AtClause (word :: rest) := by
  intro t ht
  cases ht
  exact Option.isSome_iff_exists.mpr ⟨_, h.starts⟩

/-- Reading stops at a repetition only behind clauses that have been read. -/
theorem repeats_of_clauses {query : Select} {tokens : List Token} {kind : ClauseKind}
    {place : Option Span}
    (hread : clauses query tokens = .error (.fault kind.repetition place)) :
    ∃ segments word rest, tokens = segments.flatten ++ word :: rest ∧
      query.Repeats kind place segments word rest := by
  induction hlength : tokens.length using Nat.strongRecOn generalizing query tokens with
  | ind length ih =>
      cases tokens with
      | nil =>
          rw [clauses] at hread
          cases hread
      | cons word tokens =>
          rw [clauses] at hread
          split at hread
          · cases hread
          · rename_i found hfound
            cases hclause : clause query word found tokens with
            | error error =>
                rw [hclause] at hread
                cases Except.error.inj hread
                obtain ⟨rfl, hhas, hnamed⟩ := clause_eq_repetition_iff.mp hclause
                exact ⟨[], word, tokens, rfl, ⟨[], .nil, ⟨List.nodup_nil, by simp⟩, hhas⟩, hfound,
                  hnamed⟩
            | ok read =>
                obtain ⟨next, rest⟩ := read
                rw [hclause] at hread
                change (if rest.length ≤ tokens.length then clauses next rest
                  else fail .expectingEndOfString rest) = _ at hread
                split at hread
                · obtain ⟨used, rfl, -⟩ := Grammar.sound_clause query hfound _ _ _ hclause
                  obtain ⟨hfree, body, hbody, rfl⟩ := clause_eq_ok_iff.mp hclause
                  obtain rfl := ClauseBody.kind_of_read hbody
                  have hshorter : rest.length < length := by
                    rw [← hlength, List.length_cons, List.length_append]
                    omega
                  obtain ⟨segments, last, others, rfl, hrepeats⟩ := ih _ hshorter hread rfl
                  obtain ⟨bodies, hsaid, hfits, hhas⟩ := hrepeats.said
                  have hrest := atClause_of_said hsaid rfl hrepeats.atClause
                  refine ⟨(word :: used) :: segments, last, others, by simp, ⟨body :: bodies, ?_,
                    fits_cons.mpr ⟨hfree, hfits⟩, hhas⟩, hrepeats.starts, hrepeats.blamed⟩
                  exact .cons (.mk hfound hrest hbody) hsaid
                · exact absurd hread (NoRepetition.ne (.fail rfl) kind place)

/-- Behind clauses that have been read, another one of a kind is refused. -/
theorem Repeats.clauses_eq_error {query query' : Select} {kind : ClauseKind}
    {place : Option Span} {segments : List (List Token)} {word : Token} {rest : List Token}
    (h : query.Repeats kind place segments word rest)
    (hquery : query.unplaced = query'.unplaced) :
    clauses query' (segments.flatten ++ word :: rest) =
      .error (.fault kind.repetition place) := by
  obtain ⟨bodies, hsaid, hfits, hhas⟩ := h.said
  obtain ⟨last, hread, hlast⟩ := clauses_of_said hsaid hfits hquery rfl h.atClause
  have hhas : last.has kind = true := by
    rw [← has_unplaced, ← hlast, has_unplaced, hhas]
  have hclause : clause last word kind rest = .error (.fault kind.repetition place) :=
    clause_eq_repetition_iff.mpr ⟨rfl, hhas, h.blamed⟩
  rw [hread, clauses]
  simp only [h.starts, hclause]
  rfl

/-! ## Whole queries -/

/-- Only the clauses of a query are refused for a repetition. -/
theorem ofTokens_eq_repetition_iff {tokens : List Token} {kind : ClauseKind}
    {place : Option Span} :
    ofTokens tokens = .error (.fault kind.repetition place) ↔
      ∃ word others columns rest, tokens = word :: others ∧
        word.isKeyword "select" = true ∧ Grammar.columns others = .ok (columns, rest) ∧
        clauses { columns } rest = .error (.fault kind.repetition place) := by
  constructor
  · intro hread
    have hselect : Reads (expect .expectingSelect (keyword? "select")) :=
      (finds_keyword "select").reads rfl
    obtain ⟨⟨word, others⟩, hfirst, -⟩ := hselect.noRepetition.bind_eq_iff.mp hread
    obtain ⟨rfl, hword⟩ := keyword?_eq_some_iff.mp (expect_eq_ok_iff.mp hfirst)
    rw [Grammar.ofTokens_cons hword] at hread
    obtain ⟨⟨columns, rest⟩, hcolumns, hread⟩ := (noRepetition_columns others).bind_eq_iff.mp hread
    refine ⟨word, others, columns, rest, rfl, hword, hcolumns, ?_⟩
    cases hclauses : clauses { columns } rest with
    | error error =>
        rw [hclauses] at hread
        exact congrArg _ (Except.error.inj hread)
    | ok last =>
        rw [hclauses] at hread
        change (if isTail last.2 then _ else fail .expectingEndOfString last.2) = _ at hread
        split at hread
        · cases hread
        · exact absurd hread (NoRepetition.ne (.fail rfl) kind place)
  · rintro ⟨word, others, columns, rest, rfl, hword, hcolumns, hclauses⟩
    exact Grammar.ofTokens_eq_error hword hcolumns hclauses

/-- Columns are read alike before any clause and at the end of a query. -/
theorem columns_append {used rest rest' : List Token} {columns : Option FieldList}
    (hcolumns : Grammar.columns (used ++ rest) = .ok (columns, rest)) (hrest' : AtClause rest') :
    ∃ columns', Grammar.columns (used ++ rest') = .ok (columns', rest') ∧
      Select.unplaced { columns } = Select.unplaced { columns := columns' } := by
  obtain ⟨columns', _, hcolumns', hsame, h⟩ := tracks_columns hrest' (abreast_append rfl)
    hcolumns (List.suffix_refl rest)
  obtain rfl := h.eq_of_end
  exact ⟨columns', hcolumns', by simp [unplaced, hsame]⟩

/-- Tokens are refused for a repetition exactly if they begin with the tokens of a query that
has a clause of the kind, and another one comes next. -/
theorem ofTokens_eq_repetition_iff_exists_append {tokens : List Token} {kind : ClauseKind}
    {place : Option Span} (hsolid : ∀ t ∈ tokens, t.isOperation "" = false) :
    ofTokens tokens = .error (.fault kind.repetition place) ↔
      ∃ before word rest query named, tokens = before ++ word :: rest ∧
        ofTokens before = .ok query ∧ query.has kind = true ∧
        ClauseKind.ofToken? word = some kind ∧ kind.lastWord? word rest = some named ∧
        place = some named.span := by
  rw [ofTokens_eq_repetition_iff]
  constructor
  · rintro ⟨select, others, columns, rest, rfl, hselect, hcolumns, hclauses⟩
    obtain ⟨segments, word, rest, rfl, hrepeats⟩ := repeats_of_clauses hclauses
    obtain ⟨used, rfl, -⟩ := Grammar.sound_columns _ _ _ hcolumns
    obtain ⟨bodies, hsaid, hfits, hhas⟩ := hrepeats.said
    obtain ⟨named, hnamed, hplace⟩ := hrepeats.blamed
    have hstart : AtClause segments.flatten := by
      simpa using atClause_of_said hsaid rfl atClause_nil
    obtain ⟨columns', hcolumns', hsame⟩ := columns_append hcolumns hstart
    obtain ⟨last, hread, hlast⟩ := clauses_of_said hsaid hfits hsame rfl atClause_nil
    rw [List.append_nil, clauses] at hread
    refine ⟨select :: (used ++ segments.flatten), word, rest, _, named, by simp,
      Grammar.ofTokens_eq_ok_iff_isTail.mpr ⟨select, _, columns', _, last, [], rfl, hselect,
        hcolumns', hread, rfl, rfl⟩, ?_, hrepeats.starts, hnamed, hplace⟩
    rw [← has_unplaced, hlast, has_unplaced] at hhas
    cases kind <;> exact hhas
  · rintro ⟨before, word, rest, query, named, rfl, hread, hhas, hword, hnamed, hplace⟩
    obtain ⟨select, others, columns, after, last, rfl, hselect, hcolumns, hclauses, rfl⟩ :=
      (Grammar.ofTokens_eq_ok_iff fun t ht => hsolid t (by simp [ht])).mp hread
    obtain ⟨used, rfl, -⟩ := Grammar.sound_columns _ _ _ hcolumns
    obtain ⟨hflatten, bodies, hsaid, hfits, rfl⟩ := said_of_clauses hclauses
    have hhas : (bodies.foldl put { columns }).has kind = true := by
      cases kind <;> exact hhas
    have hrepeats : Repeats { columns } kind place (clauseSegments { columns } after) word rest :=
      ⟨⟨bodies, hsaid, hfits, hhas⟩, hword, named, hnamed, hplace⟩
    have hstart := atClause_of_said hsaid rfl hrepeats.atClause
    rw [hflatten] at hstart
    obtain ⟨columns', hcolumns', hsame⟩ := columns_append hcolumns hstart
    have hrefused := hrepeats.clauses_eq_error hsame
    rw [hflatten] at hrefused
    exact ⟨select, _, columns', _, by simp, hselect, hcolumns', hrefused⟩

/-- The last word of a keyword is its first one only where it has one. -/
theorem span_lastWord?_eq_iff {text : String} {before rest : List Token} {word named : Token}
    {kind : ClauseKind} (htokens : tokens text = .ok (before ++ word :: rest))
    (hnamed : kind.lastWord? word rest = some named) :
    named.span = word.span ↔ kind ≠ .group ∧ kind ≠ .order := by
  have hapart : named ∈ rest → named.span ≠ word.span := by
    intro hmem heq
    obtain ⟨-, hscan⟩ := tokens_eq_ok_iff.mp htokens
    have hwords := Scan.pairwise_scan text
    rw [hscan, List.pairwise_append] at hwords
    have hbefore := List.rel_of_pairwise_cons hwords.2.1 hmem
    have hnonempty := (placedIn_of_tokens htokens word (by simp)).span.nonempty
    rw [heq] at hbefore
    omega
  have hby : (keyword? "by" rest).map Prod.fst = some named → named ∈ rest := by
    intro hfirst
    obtain ⟨⟨t, others⟩, hread, rfl⟩ := Option.map_eq_some_iff.mp hfirst
    rw [(keyword?_eq_some_iff.mp hread).1]
    exact List.mem_cons_self
  cases kind with
  | group => simpa using hapart (hby hnamed)
  | order => simpa using hapart (hby hnamed)
  | _ =>
      cases hnamed
      simp

/-- A text is refused for a second clause of a kind exactly if its tokens begin with those of
a query that has a clause of the kind and go on with the keyword of another one.  The fault is
placed at the last word of that keyword, so at the word that the clause begins with unless it
is `group by` or `order by`, and then at the word behind it. -/
theorem parse_eq_repetition_iff {text : String} {kind : ClauseKind} {place : Option Span} :
    parse text = .error (.fault kind.repetition place) ↔
      ∃ before word rest query named, tokens text = .ok (before ++ word :: rest) ∧
        ofTokens before = .ok query ∧ query.has kind = true ∧
        ClauseKind.ofToken? word = some kind ∧ kind.lastWord? word rest = some named ∧
        place = some named.span ∧
        (place = some word.span ↔ kind ≠ .group ∧ kind ≠ .order) := by
  constructor
  · intro hparse
    obtain ⟨ts, htokens, hrefused⟩ := (noRepetition_tokens text).bind_eq_iff.mp hparse
    obtain ⟨before, word, rest, query, named, rfl, hread, hhas, hword, hnamed, rfl⟩ :=
      (ofTokens_eq_repetition_iff_exists_append (solid_of_tokens htokens)).mp hrefused
    refine ⟨before, word, rest, query, named, htokens, hread, hhas, hword, hnamed, rfl, ?_⟩
    rw [← span_lastWord?_eq_iff htokens hnamed, Option.some.injEq]
  · rintro ⟨before, word, rest, query, named, htokens, hread, hhas, hword, hnamed, hplace, -⟩
    rw [parse, htokens]
    exact (ofTokens_eq_repetition_iff_exists_append (solid_of_tokens htokens)).mpr
      ⟨before, word, rest, query, named, rfl, hread, hhas, hword, hnamed, hplace⟩

/-- The second `group by` is blamed at its `by`, not at its `group`. -/
theorem parse_repeated_group_by :
    parse "select * from X group by a group by b" =
        .error (.fault .duplicateGroupBy (some ⟨33, 35⟩)) ∧
      ∀ t ∈ (scan "select * from X group by a group by b").tokens,
        t.isKeyword "group" = true → t.span ≠ ⟨33, 35⟩ :=
  ⟨failure?_eq_some_iff.mp (by decide +kernel), by decide +kernel⟩

end Select

end TrackerQuery

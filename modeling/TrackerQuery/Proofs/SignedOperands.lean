import TrackerQuery.Proofs.ClauseOrder
import TrackerQuery.Proofs.Lockstep

/-!
# Signed operands

Behind a value a number with a sign says the same as an operator and a number.  Tokens that
differ only so, and in their places, are read as the same query up to places.
-/

namespace TrackerQuery

open TrackerQuery.Parser

theorem Parser.Abreast.symm {rest rest' l l' : List Token} {afterValue : Bool}
    (h : Abreast rest rest' afterValue l l') : Abreast rest' rest afterValue l' l := by
  induction h with
  | here => exact .here
  | @token _ t t' l l' ht h ih =>
      have hvalue : (Expr.ofToken? t).isSome = (Expr.ofToken? t').isSome := by
        have hsame := congrArg Option.isSome (Expr.ofToken?_unplaced ht)
        rwa [Option.isSome_map, Option.isSome_map] at hsame
      rw [hvalue] at ih
      exact .token ht.symm ih
  | operation hus hus' he h ih => exact .operation hus' hus he.symm ih

namespace Select

/-- Clauses are read alike however their operations are written. -/
theorem clauses_of_abreast {query query' last : Select} (hquery : query.unplaced = query'.unplaced)
    {l l' : List Token} (h : Abreast [] [] true l l') (hread : clauses query l = .ok (last, [])) :
    ∃ last', clauses query' l' = .ok (last', []) ∧ last.unplaced = last'.unplaced := by
  induction hlength : l.length using Nat.strongRecOn generalizing query query' l l' with
  | ind length ih =>
      cases h with
      | here =>
          rw [clauses] at hread
          cases hread
          exact ⟨query', by rw [clauses], hquery⟩
      | @token _ word word' _ l' hword h =>
          obtain ⟨body, used, rest, rfl, hkind, hfree, hbody, hothers⟩ := clauses_eq_ok_cons hread
          rw [(plain_keyword _).value (Grammar.isKeyword_of_clauseKind hkind)] at h
          obtain ⟨body', rest', hbody', hsame, hrest⟩ := ClauseBody.tracks_read atClause_nil
            atClause_nil body.kind h hbody (List.nil_suffix)
          obtain ⟨used', rfl⟩ := (ClauseBody.reads_read body.kind).suffix hbody'
          have hkind' : body.kind = body'.kind := by
            rw [← body.kind_unplaced, hsame, body'.kind_unplaced]
          have hword' : ClauseKind.ofToken? word' = some body'.kind := by
            change ClauseKind.ofToken? word'.unplaced = _
            rw [← hword, ← hkind']
            exact hkind
          have hfree' : query'.has body'.kind = false := by
            rw [← hkind', ← has_unplaced, ← hquery, has_unplaced, hfree]
          rw [hkind'] at hbody'
          have hnext : (query.put body).unplaced = (query'.put body').unplaced := by
            rw [unplaced_put, unplaced_put, hquery, hsame]
          have hshorter : rest.length < length := by
            rw [← hlength, List.length_cons, List.length_append]
            omega
          rw [(clauses_cons hword' hfree' hbody').1]
          exact ih rest.length hshorter hnext hrest hothers rfl
      | operation hus hus' he h =>
          obtain ⟨t, vs, rfl, ht⟩ := hus.start
          obtain ⟨body, used, rest, -, hkind, -⟩ := clauses_eq_ok_cons hread
          rw [(plain_keyword _).continues (Grammar.isKeyword_of_clauseKind hkind)] at ht
          cases ht

/-- A query is read alike however its operations are written. -/
theorem ofTokens_of_abreast {query : Select} {l l' : List Token} (h : Abreast [] [] false l l')
    (hsolid : ∀ t ∈ l, t.isOperation "" = false) (hread : ofTokens l = .ok query) :
    ∃ query', ofTokens l' = .ok query' ∧ query.unplaced = query'.unplaced := by
  obtain ⟨word, others, columns, rest, last, rfl, hword, hcolumns, hclauses, rfl⟩ :=
    (Grammar.ofTokens_eq_ok_iff hsolid).mp hread
  cases h with
  | @token _ _ word' _ others' hsame h =>
      rw [(plain_keyword _).value hword] at h
      obtain ⟨columns', rest', hcolumns', hlist, hrest⟩ :=
        tracks_columns atClause_nil h hcolumns List.nil_suffix
      have hfirst : Select.unplaced { columns } = Select.unplaced { columns := columns' } := by
        simp [unplaced, hlist]
      obtain ⟨last', hclauses', hlast⟩ := clauses_of_abreast hfirst hrest hclauses
      have hword' : word'.isKeyword "select" = true := by
        change word'.unplaced.isKeyword "select" = true
        rw [← hsame]
        exact hword
      exact ⟨_, Grammar.ofTokens_eq_ok_iff_isTail.mpr ⟨word', others', columns', rest', last', [],
        rfl, hword', hcolumns', hclauses', rfl, rfl⟩, hlast⟩

theorem matches_parse {text text' : String}
    (herror : (scan text).error.isNone = (scan text').error.isNone)
    (htokens : Abreast [] [] false (scan text).tokens (scan text').tokens) :
    Matches (fun query query' => query.unplaced = query'.unplaced) (parse text) (parse text') := by
  unfold parse tokens
  dsimp only
  cases hleft : (scan text).error with
  | none =>
      rw [hleft] at herror
      rw [Option.isNone_iff_eq_none.mp herror.symm]
      have hsolid := solid_of_tokens (tokens_eq_ok_iff.mpr ⟨hleft, rfl⟩)
      have hsolid' :=
        solid_of_tokens (tokens_eq_ok_iff.mpr ⟨Option.isNone_iff_eq_none.mp herror.symm, rfl⟩)
      refine .of_success (fun query => ofTokens_of_abreast htokens hsolid) fun query' hread => ?_
      obtain ⟨query, hread, -⟩ := ofTokens_of_abreast htokens.symm hsolid' hread
      exact ⟨query, hread⟩
  | some e =>
      rw [hleft] at herror
      cases hright : (scan text').error with
      | none =>
          rw [hright] at herror
          cases herror
      | some e' => exact .error

end Select

end TrackerQuery

import TrackerQuery.Proofs.QueryGrammar
import TrackerQuery.Proofs.Scanned

/-!
# Query texts and the grammar

A text parses to a query exactly if its tokens derive that query.  The names of a
derivation have to be unreserved for parsing to find it; what scanning guarantees
of a name then keeps it apart from the words and symbols of the grammar.
-/

namespace TrackerQuery.Grammar

/-! ## Names that a derivation admits -/

section Admitted

variable {named admitted : Token → Prop}

theorem Separated.imp {α : Type} {item other : List Token → α → Prop} {separator : Token → Bool}
    {ts : List Token} {as : List α} (h : Separated item separator ts as)
    (himp : ∀ us a, (∀ t ∈ us, t ∈ ts) → item us a → other us a) :
    Separated other separator ts as := by
  induction h with
  | one hitem => exact .one (himp _ _ (fun _ ht => ht) hitem)
  | @more ts a t us as hitem hseparator hothers ih =>
      refine .more (himp _ _ (fun t ht => by simp [ht]) hitem) hseparator (ih fun vs b hvs => ?_)
      exact himp vs b fun t ht => by simp [hvs t ht]

theorem Field.imp {ts : List Token} {field : FieldRef} (h : Field named ts field)
    (himp : ∀ t ∈ ts, named t → admitted t) : Field admitted ts field := by
  cases h with
  | plain hname => exact .plain (himp _ (by simp) hname)
  | qualified hqualifier hdot hname =>
      exact .qualified (himp _ (by simp) hqualifier) hdot (himp _ (by simp) hname)

theorem RightSide.imp {op : Comparison} {ts : List Token} {e : Expr} (h : RightSide named op ts e)
    (himp : ∀ t ∈ ts, named t → admitted t) : RightSide admitted op ts e := by
  cases h with
  | group hvalue => exact .group hvalue
  | path hvalue => exact .path hvalue
  | list hlist => exact .list hlist
  | field hop hfield => exact .field hop (hfield.imp himp)
  | expression hop hexpression => exact .expression hop hexpression

theorem Condition.imp {ts : List Token} {e : Expr} (h : Condition named ts e)
    (himp : ∀ t ∈ ts, named t → admitted t) : Condition admitted ts e := by
  obtain ⟨hleft, hleading, hcount, hop, hright⟩ := h
  exact .mk (hleft.imp fun t ht => himp t (by simp [ht])) hleading hcount hop
    (hright.imp fun t ht => himp t (by simp [ht]))

theorem Disjunction.imp {operand other : List Token → Expr → Prop} {ts : List Token} {e : Expr}
    (h : Disjunction operand ts e)
    (himp : ∀ us e, (∀ t ∈ us, t ∈ ts) → operand us e → other us e) : Disjunction other ts e := by
  obtain ⟨operands, hoperands, rfl⟩ := h
  refine ⟨operands, hoperands.imp fun us e hus hconjunction => ?_, rfl⟩
  obtain ⟨parts, hparts, rfl⟩ := hconjunction
  exact ⟨parts, hparts.imp fun vs e hvs => himp vs e fun t ht => hus t (hvs t ht), rfl⟩

theorem Operand.imp {depth : Nat} {ts : List Token} {e : Expr} (h : Operand named depth ts e)
    (himp : ∀ t ∈ ts, named t → admitted t) : Operand admitted depth ts e := by
  induction depth generalizing ts e with
  | zero => exact Condition.imp h himp
  | succ depth ih =>
      cases h with
      | condition hcondition => exact .condition (hcondition.imp himp)
      | leading hword hinner => exact .leading hword (ih hinner fun t ht => himp t (by simp [ht]))
      | exclamation hmark hinner =>
          exact .exclamation hmark (ih hinner fun t ht => himp t (by simp [ht]))
      | parens hopening hinner hclosing =>
          refine .parens hopening (hinner.imp fun us e hus he => ?_) hclosing
          exact ih he fun t ht => himp t (by simp [hus t ht])

theorem Fields.imp {kind : FieldListKind} {ts : List Token} {list : FieldList}
    (h : Fields named kind ts list) (himp : ∀ t ∈ ts, named t → admitted t) :
    Fields admitted kind ts list := by
  obtain ⟨hfields⟩ := h
  refine .mk (hfields.imp fun us field hus hitem => ?_)
  have himp : ∀ t ∈ us, named t → admitted t := fun t ht => himp t (hus t ht)
  cases kind with
  | select => exact Field.imp hitem himp
  | group => exact Field.imp hitem himp
  | order =>
      cases hitem with
      | plain hfield => exact .plain (hfield.imp himp)
      | ascending hfield hword =>
          exact .ascending (hfield.imp fun t ht => himp t (by simp [ht])) hword
      | descending hfield hword =>
          exact .descending (hfield.imp fun t ht => himp t (by simp [ht])) hword

theorem Modes.imp {ts : List Token} {list : ModeList} (h : Modes named ts list)
    (himp : ∀ t ∈ ts, named t → admitted t) : Modes admitted ts list := by
  obtain ⟨hopening, hitems, hclosing⟩ := h
  refine .mk hopening (hitems.imp fun us item hus hitem => ?_) hclosing
  obtain ⟨hname⟩ := hitem
  exact .mk (himp _ (by simp [hus]) hname)

theorem Clause.imp {ts : List Token} {query next : Select} (h : Clause named ts query next)
    (himp : ∀ t ∈ ts, named t → admitted t) : Clause admitted ts query next := by
  cases h with
  | table hword hfirst hname => exact .table hword hfirst (himp _ (by simp) hname)
  | filter hword hfirst hfilter =>
      refine .filter hword hfirst (Disjunction.imp hfilter fun us e hus he => ?_)
      exact Operand.imp he fun t ht => himp t (by simp [hus t ht])
  | grouping hword hby hfirst hlist =>
      exact .grouping hword hby hfirst (hlist.imp fun t ht => himp t (by simp [ht]))
  | ordering hword hby hfirst hlist =>
      exact .ordering hword hby hfirst (hlist.imp fun t ht => himp t (by simp [ht]))
  | asOf hword hfirst hvalue => exact .asOf hword hfirst hvalue
  | modes hword hfirst hmodes =>
      exact .modes hword hfirst (hmodes.imp fun t ht => himp t (by simp [ht]))

theorem Clauses.imp {ts : List Token} {query last : Select} (h : Clauses named ts query last)
    (himp : ∀ t ∈ ts, named t → admitted t) : Clauses admitted ts query last := by
  induction h with
  | nil => exact .nil
  | cons hclause hothers ih =>
      exact .cons (hclause.imp fun t ht => himp t (by simp [ht]))
        (ih fun t ht => himp t (by simp [ht]))

/-- A derivation stands if all the names it uses are admitted. -/
theorem Query.imp {ts : List Token} {query : Select} (h : Query named ts query)
    (himp : ∀ t ∈ ts, named t → admitted t) : Query admitted ts query := by
  obtain @⟨word, ts, columns, us, query, hword, hcolumns, hclauses⟩ := h
  refine .mk hword ?_ (hclauses.imp fun t ht => himp t (by simp [ht]))
  cases hcolumns with
  | all hstar => exact .all hstar
  | fields hlist => exact .fields (hlist.imp fun t ht => himp t (by simp [ht]))

end Admitted

/-! ## Unreserved names -/

/-- A name in brackets, or a bare one that is no reserved word. -/
def Unreserved (t : Token) : Prop :=
  t.isName = true ∧ (t.kind = .name → reservedWords.any (Text.sameIgnoringCase · t.value) = false)

/-- A word that spells an operator is reserved. -/
theorem ofSpelling_of_unreserved {text : String} (hword : Scan.IsWord text.toList)
    (hfree : reservedWords.any (Text.sameIgnoringCase · text) = false) :
    Comparison.ofSpelling text = .missing := by
  refine Decidable.byContradiction fun hop => ?_
  obtain ⟨spelling, hspelling, hsame⟩ := spells_of_ofSpelling rfl hop
  have hwords : ∀ entry ∈ Comparison.spellings,
      (entry.1.toList.map Text.asciiLower).head?.any Scan.isNameStart = true →
        entry.1 ∈ reservedWords := by
    decide
  have hreserved : spelling ∈ reservedWords := by
    refine hwords _ hspelling ?_
    obtain ⟨c, tail, htext, hc, -⟩ := hword
    rw [beq_iff_eq.mp hsame, htext]
    exact (Scan.isNameStart_asciiLower c).trans hc
  rw [List.any_eq_false] at hfree
  exact hfree spelling hreserved hsame

theorem Unreserved.plainName {t : Token} (ht : Unreserved t) (hscanned : t.Scanned) :
    PlainName t := by
  obtain ⟨hname, hfree⟩ := ht
  simp only [Token.isName, Bool.or_eq_true, beq_iff_eq] at hname
  obtain hkind | hkind := hname
  · simp only [Token.Scanned, hkind, Scan.IsValueOf] at hscanned
    exact .inr ⟨hkind, hfree hkind, ofSpelling_of_unreserved hscanned.1 (hfree hkind)⟩
  · exact .inl hkind

end TrackerQuery.Grammar

namespace TrackerQuery.Select

open Grammar

theorem parse_eq_ok_iff {text : String} {query : Select} :
    parse text = .ok query ↔ ∃ ts, tokens text = .ok ts ∧ ofTokens ts = .ok query :=
  bind_eq_ok_iff

/-- A derivation without reserved words as names is what the text is read as. -/
theorem parse_of_query {text : String} {ts : List Token} {query : Select}
    (htokens : tokens text = .ok ts) (hquery : Query Unreserved ts query) :
    parse text = .ok query := by
  have hscanned := scanned_of_tokens htokens
  refine parse_eq_ok_iff.mpr ⟨ts, htokens, ofTokens_of_query (hquery.imp fun t ht hfree => ?_)⟩
  exact hfree.plainName (hscanned t ht)

/-- Parsing accepts exactly the grammar: the tokens of a text that parses derive
the query, and a derivation without reserved words as names is what the text
parses to. -/
theorem parse_accepts_grammar (text : String) :
    (∀ query, parse text = .ok query →
      ∃ ts, tokens text = .ok ts ∧ Query anyName ts query) ∧
    (∀ ts query, tokens text = .ok ts → Query Unreserved ts query → parse text = .ok query) := by
  constructor
  · intro query hparse
    obtain ⟨ts, htokens, hread⟩ := parse_eq_ok_iff.mp hparse
    exact ⟨ts, htokens, query_of_ofTokens (solid_of_tokens htokens) hread⟩
  · intro ts query htokens hquery
    exact parse_of_query htokens hquery

/-- A name in brackets is no keyword, an operator may be left out after `not`, and
a signed number goes on with a sum. -/
theorem parse_of_bracketed_keyword :
    ∃ ts query, tokens "select * where [from] not 1 -2" = .ok ts ∧ Query Unreserved ts query ∧
      parse "select * where [from] not 1 -2" = .ok query ∧
      ∃ us, tokens "select * where [from] not 1 -2" = .ok us ∧
        Query anyName us query := by
  have htokens : (tokens "select * where [from] not 1 -2").toOption =
      some [⟨.name, "select", ⟨0, 6⟩⟩, ⟨.operation, "*", ⟨7, 8⟩⟩, ⟨.name, "where", ⟨9, 14⟩⟩,
        ⟨.bracketedName, "from", ⟨15, 21⟩⟩, ⟨.name, "not", ⟨22, 25⟩⟩, ⟨.number, "1", ⟨26, 27⟩⟩,
        ⟨.number, "-2", ⟨28, 30⟩⟩] := by
    decide +kernel
  have htokens := toOption_eq_some_iff.mp htokens
  have hfield : Field Unreserved [⟨.bracketedName, "from", ⟨15, 21⟩⟩] _ := .plain ⟨rfl, by simp⟩
  have hleading : LeadingWords [⟨.name, "not", ⟨22, 25⟩⟩] [.not] := .cons rfl .nil
  have hsigned : Operation [⟨.number, "-2", ⟨28, 30⟩⟩] .subtract
      (.number { span := ⟨29, 30⟩ } "2") :=
    .signed (by decide) rfl rfl
  have hsum : Expression (127 + 1) ([⟨.number, "1", ⟨26, 27⟩⟩] ++ [⟨.number, "-2", ⟨28, 30⟩⟩]) _ :=
    .operation (.value (.number rfl)) hsigned
  have hcondition := Condition.mk hfield hleading (by decide) .omitted (.expression rfl hsum)
  have hclause : Clause Unreserved (⟨.name, "where", ⟨9, 14⟩⟩ :: _) {} _ :=
    .filter rfl rfl ⟨_, .one ⟨_, .one (.condition hcondition), rfl⟩, rfl⟩
  have hcolumns : Columns Unreserved [⟨.operation, "*", ⟨7, 8⟩⟩] none := .all rfl
  have hquery : Query Unreserved (⟨.name, "select", ⟨0, 6⟩⟩ :: _) _ :=
    .mk rfl hcolumns (.cons hclause .nil)
  have hparse := (parse_accepts_grammar _).2 _ _ htokens hquery
  exact ⟨_, _, htokens, hquery, hparse, (parse_accepts_grammar _).1 _ hparse⟩

end TrackerQuery.Select

import TrackerQuery.Proofs.PathWeight
import TrackerQuery.Proofs.RoundTrip

/-!
# Levels as they are spelled and as they are printed

The limit on nesting is one of spellings.  `never` takes one level and is printed as
`not ever`, which takes two; and operators behind a field have a limit of their own but are
printed in front of the condition, where they add to the levels around it.  So a query may
be read whose printed text is refused, though only if its tokens spell out more levels than
the limit when they are counted as they are printed.
-/

namespace TrackerQuery

open Grammar

def Expr.Leading.levels : Expr.Leading → Nat
  | .not | .ever => 1
  | .never => 2

def Token.levels (t : Token) : Nat :=
  match Expr.Leading.ofToken? t with
  | some op => op.levels
  | none => if t.isOperation "(" || t.isOperation "!" then 1 else 0

def levelsOf : List Token → Nat
  | [] => 0
  | t :: ts => t.levels + levelsOf ts

/-! ## Levels of tokens -/

theorem levelsOf_append (ts us : List Token) :
    levelsOf (ts ++ us) = levelsOf ts + levelsOf us := by
  induction ts with
  | nil => simp [levelsOf]
  | cons t ts ih => rw [List.cons_append, levelsOf, levelsOf, ih, Nat.add_assoc]

theorem levelsOf_le_of_sublist {ts us : List Token} (hsub : ts.Sublist us) :
    levelsOf ts ≤ levelsOf us := by
  induction hsub with
  | slnil => exact Nat.le_refl _
  | cons t hsub ih =>
      rw [levelsOf]
      omega
  | cons_cons t hsub ih =>
      rw [levelsOf, levelsOf]
      omega

theorem levels_of_isKeyword {t : Token} {op : Expr.Leading}
    (hword : t.isKeyword (word op) = true) : t.levels = op.levels := by
  rw [Token.levels, leading_ofToken?_eq_some hword]

theorem levels_of_isOperation {t : Token} {text : String} (htext : t.isOperation text = true)
    (hsymbol : text = "(" ∨ text = "!") : t.levels = 1 := by
  have hword : Expr.Leading.ofToken? t = none :=
    leading_ofToken?_eq_none (.inl (by simp [Token.kind_of_isOperation htext]))
  rw [Token.levels, hword]
  obtain rfl | rfl := hsymbol <;> simp [htext]

/-! ## Levels of trees -/

namespace Expr

theorem isLeading_withMark (e : Expr) (m : Mark) : (e.withMark m).isLeading = e.isLeading := by
  cases e <;> rfl

theorem weighs_levels : Weighs levels 0 where
  leading e hopen hleading := by simp [levels, hopen, hleading]
  other e hopen hother := by simp [levels, hopen, hother]
  parens e m := by
    have hparens := Bool.toNat_le (e.withMark m).parens
    rw [levels, levels, isLeading_withMark]
    omega

theorem nesting_apply (op : Leading) (e : Expr) {m : Mark} (hm : m.parens = false) :
    ((op.apply e).withMark m).nesting = op.levels + e.nesting := by
  cases op with
  | not | ever =>
      simp [Leading.apply, negate, once, withMark, nesting, heaviestPath, levels, isLeading,
        Expr.parens, mark, hm, Leading.levels]
  | never =>
      simp [Leading.apply, negate, once, withMark, nesting, heaviestPath, levels, isLeading,
        Expr.parens, mark, hm, Leading.levels]
      omega

theorem nesting_joined (connective : Connective) (es : List Expr) :
    (joined connective es).nesting = heaviestOf levels es := by
  unfold joined
  split
  · simp [nesting, heaviestOf]
  · simp [join, nesting, heaviestPath, levels, isLeading, Expr.parens, mark]

end Expr

/-! ## No printed level without a spelled one -/

namespace Grammar

variable {named : Token → Prop} {ts : List Token} {e : Expr}

theorem LeadingWords.nesting_foldr {ops : List Expr.Leading} (h : LeadingWords ts ops) (e : Expr) :
    (ops.foldr (fun leading e => leading.apply e) e).nesting = levelsOf ts + e.nesting := by
  induction h with
  | nil => simp [levelsOf]
  | @cons t op ts ops hword hothers ih =>
      rw [List.foldr_cons, levelsOf, levels_of_isKeyword hword]
      generalize ops.foldr (fun leading e => leading.apply e) e = inner at ih ⊢
      have hop := Expr.nesting_apply op inner (parens_apply op inner)
      rw [Expr.withMark_mark] at hop
      omega

theorem Condition.nesting_le (h : Condition named ts e) : e.nesting ≤ levelsOf ts := by
  obtain @⟨ts, left, us, ops, vs, op, ws, right, hleft, hleading, hcount, hop, hright⟩ := h
  have hright : right.heaviestPath Expr.levels = 0 := by
    simpa using hright.heaviestPath_le Expr.weighs_levels
  have hcompare : (Expr.compare op left right).nesting = 0 := by
    rw [Expr.nesting, Expr.compare, Expr.heaviestPath, hright]
    rfl
  rw [hleading.nesting_foldr, hcompare, levelsOf_append, levelsOf_append]
  omega

theorem Separated.heaviestOf_le {item : List Token → Expr → Prop} {separator : Token → Bool}
    {es : List Expr} (hitem : ∀ us e, item us e → e.nesting ≤ levelsOf us)
    (h : Separated item separator ts es) : Expr.heaviestOf Expr.levels es ≤ levelsOf ts := by
  induction h with
  | @one ts e he => simpa [Expr.heaviestOf, Expr.nesting] using hitem ts e he
  | @more ts e t us es he hseparator hothers ih =>
      have he : e.heaviestPath Expr.levels ≤ levelsOf ts := hitem ts e he
      rw [Expr.heaviestOf, levelsOf_append, levelsOf]
      omega

theorem Disjunction.nesting_le {operand : List Token → Expr → Prop}
    (hoperand : ∀ us e, operand us e → e.nesting ≤ levelsOf us) (h : Disjunction operand ts e) :
    e.nesting ≤ levelsOf ts := by
  obtain ⟨parts, hparts, rfl⟩ := h
  rw [Expr.nesting_joined]
  refine hparts.heaviestOf_le ?_
  rintro us _ ⟨operands, hoperands, rfl⟩
  rw [Expr.nesting_joined]
  exact hoperands.heaviestOf_le hoperand

/-- An operand nests no deeper than its tokens spell out. -/
theorem Operand.nesting_le {depth : Nat} (h : Operand named depth ts e) :
    e.nesting ≤ levelsOf ts := by
  induction depth generalizing ts e with
  | zero => exact Condition.nesting_le h
  | succ depth ih =>
      cases h with
      | condition hcondition => exact hcondition.nesting_le
      | @leading t op ts e hword hinner =>
          have hinner := ih hinner
          rw [withSpan_apply, Expr.nesting_apply op e rfl, levelsOf, levels_of_isKeyword hword]
          omega
      | @exclamation t ts e hmark hinner =>
          have hinner := ih hinner
          have hnot := Expr.nesting_apply .not e (m := { span := t.span.cover e.span }) rfl
          rw [levelsOf, levels_of_isOperation hmark (.inr rfl)]
          exact Nat.le_trans (Nat.le_of_eq hnot) (Nat.add_le_add_left hinner 1)
      | @parens opening ts e closing hopening hinner hclosing =>
          have hinner := hinner.nesting_le fun us e he => ih he
          have hmark : (e.withMark ⟨opening.span.cover closing.span, true⟩).nesting ≤
              1 + e.nesting := by
            rw [Expr.nesting, Expr.nesting, Expr.heaviestPath_eq_add, Expr.heaviestPath_eq_add e,
              Expr.children_withMark, Expr.levels, Expr.levels, Expr.isLeading_withMark]
            have hparens := Bool.toNat_le
              (e.withMark ⟨opening.span.cover closing.span, true⟩).parens
            omega
          rw [levelsOf, levelsOf_append, levels_of_isOperation hopening (.inl rfl)]
          omega

end Grammar

namespace Select

/-- The printed text of a parsed query is refused as too complex exactly if it nests too
deep.  It never nests deeper than four times the limit, nor deeper than the tokens of the
query spell out in all, with `never` counted twice. -/
theorem parse_render_tooComplex_iff {text : String} {query : Select}
    (hparse : parse text = .ok query) :
    ((∃ place, parse query.render = .error (.fault .tooComplexExpression place)) ↔
        ∃ filter ∈ query.filter, maxNesting < filter.nesting) ∧
      ∀ filter ∈ query.filter, filter.nesting ≤ 4 * maxNesting ∧
        ∀ ts, tokens text = .ok ts → filter.nesting ≤ levelsOf ts := by
  have hprintable := printable_of_parse hparse
  obtain ⟨ts, htokens, hread⟩ := parse_eq_ok_iff.mp hparse
  refine ⟨⟨?_, ?_⟩, fun filter hfilter => ?_⟩
  · rintro ⟨place, hfail⟩
    refine Classical.byContradiction fun hshallow => ?_
    have hnesting : ∀ filter ∈ query.filter, filter.nesting ≤ maxNesting := fun filter hfilter =>
      Nat.le_of_not_lt fun hdeep => hshallow ⟨filter, hfilter, hdeep⟩
    obtain ⟨us, hus, again, hagain, -⟩ := (reads_query hprintable hnesting).tokens
    rw [parse_eq_ok_iff.mpr ⟨us, hus, ofTokens_of_query hagain⟩] at hfail
    cases hfail
  · rintro ⟨filter, hfilter, hdeep⟩
    exact parse_render_tooDeep hprintable hfilter hdeep
  · obtain ⟨us, hsub, hderived⟩ := (query_of_ofTokens (solid_of_tokens htokens) hread).exists_filter hfilter
    have hweight := hderived.heaviestPath_le Expr.weighs_levels
    rw [Nat.mul_zero, Nat.add_zero] at hweight
    refine ⟨hweight, fun ts' htokens' => ?_⟩
    cases htokens.symm.trans htokens'
    have hspelled := hderived.nesting_le fun us e he => Operand.nesting_le he
    exact Nat.le_trans hspelled (levelsOf_le_of_sublist hsub.sublist)

/-- Operators of every spelling that are printed with as many levels as they spell out. -/
theorem parse_render_of_never :
    ∃ query, parse "select * where never (x not ever contains 'a')" = .ok query ∧
      (∀ filter ∈ query.filter, filter.nesting = 5) ∧
      ∀ place, parse query.render ≠ .error (.fault .tooComplexExpression place) := by
  have hparses : ((parse "select * where never (x not ever contains 'a')").toOption.any fun query =>
      query.filter.all (·.nesting = 5)) = true := by
    decide +kernel
  obtain ⟨query, hquery, hnesting⟩ := (Option.any_eq_true _ _).mp hparses
  have hparse := toOption_eq_some_iff.mp hquery
  have hnesting : ∀ filter ∈ query.filter, filter.nesting = 5 := fun filter hfilter =>
    of_decide_eq_true ((Option.all_eq_true _ _).mp hnesting filter hfilter)
  refine ⟨query, hparse, hnesting, fun place hfail => ?_⟩
  obtain ⟨filter, hfilter, hdeep⟩ := (parse_render_tooComplex_iff hparse).1.mp ⟨place, hfail⟩
  rw [hnesting filter hfilter] at hdeep
  exact absurd hdeep (by decide)

/-- The operator behind the field is one level too many where printing puts it. -/
theorem parse_render_of_trailing_not :
    ∃ query, parse ("select * where " ++ String.join (List.replicate 128 "!") ++ "x not 1") =
        .ok query ∧
      ∃ place, parse query.render = .error (.fault .tooComplexExpression place) := by
  have hparses : ((parse ("select * where " ++ String.join (List.replicate 128 "!") ++
      "x not 1")).toOption.any fun query => query.filter.any (maxNesting < ·.nesting)) = true := by
    decide +kernel
  obtain ⟨query, hquery, hdeep⟩ := (Option.any_eq_true _ _).mp hparses
  obtain ⟨filter, hfilter, hdeep⟩ := (Option.any_eq_true _ _).mp hdeep
  have hparse := toOption_eq_some_iff.mp hquery
  exact ⟨query, hparse,
    parse_render_tooDeep (printable_of_parse hparse) hfilter (of_decide_eq_true hdeep)⟩

end Select

end TrackerQuery

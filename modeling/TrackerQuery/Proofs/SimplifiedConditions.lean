import TrackerQuery.Proofs.Stable

/-!
# The conditions of a simplified clause

Simplification makes conditions out of conditions only: it puts a value in place, takes
a list apart, turns a team project into its area and a day into its ends.  What these
four steps pass on is true of every condition of a simplified clause, and around the
conditions no truth value, no single operand and no double negation is left.
-/

namespace TrackerQuery

namespace Expr

theorem truth?_eq_none {e : Expr} (he : ∀ m value, e ≠ .truth m value) : e.truth? = none := by
  cases e with
  | truth m value => exact absurd rfl (he m value)
  | _ => rfl

/-- A clause is put together from conditions of a kind and truth values, and from literals
and fields that are true or false if these are allowed. -/
def MadeOf (flags : Prop) (C : Comparison → FieldRef → Expr → Prop) : Expr → Prop
  | .condition _ op left right => C op left right
  | .junction .. | .not .. | .ever .. | .truth .. => True
  | .boolean .. | .field .. => flags
  | _ => False

end Expr

namespace Session

variable {session : Session} {again : Reduction} {scope : Scope} {flags : Prop}
  {C : Comparison → FieldRef → Expr → Prop}

/-- A kind of conditions that simplification stays within. -/
structure Lasting (session : Session) (scope : Scope) (C : Comparison → FieldRef → Expr → Prop) :
    Prop where
  value : ∀ {again op left right value}, C op left right →
    Expr.simplifyWith (session.reduce again) (scope.withField left) right = .ok value →
      C op left value
  item : ∀ {m left items item}, C .oneOf left (.list m items) → item ∈ items →
    C .equals left.reference item
  project : ∀ {op left right area span project}, C op left right →
    session.areaField scope left = .ok area → C .under area (.string { span } project)
  day : ∀ {op left right bound t span}, C op left right → bound = .less ∨ bound = .greaterOrEquals →
    C bound left (session.dateLiteral t span) ∧ C bound left.reference (session.dateLiteral t span)

/-- What simplification leaves of a clause with conditions of a kind. -/
def Tidy (session : Session) (scope : Scope) (flags : Prop)
    (C : Comparison → FieldRef → Expr → Prop) : Expr → Prop
  | .condition _ op left right => op ≠ .oneOf ∧ left.Resolved session.schema scope ∧ C op left right
  | .junction _ _ operands => 2 ≤ operands.length ∧ ∀ operand ∈ operands, operand.truth? = none
  | .not _ operand => operand.truth? = none ∧ ∀ m e, operand ≠ .not m e
  | .ever _ operand => operand.truth? = none
  | .truth .. => True
  | .boolean .. | .field .. => flags
  | _ => False

theorem hereditary_tidy : Expr.Hereditary (session.Tidy scope flags C) where
  truth _ _ := trivial
  junction hoperands := ⟨by simp, fun operand hoperand => (hoperands operand hoperand).1⟩
  not htruth hnot _ := ⟨Expr.truth?_eq_none htruth, hnot⟩

/-! ## One condition -/

theorem everywhere_tidy_of_dayCondition (hC : session.Lasting scope C) {m : Mark}
    {op : Comparison} {left : FieldRef} {right e : Expr} {t next : Calendar.Instant} {span : Span}
    (hleft : left.Resolved session.schema scope) (hcondition : C op left right)
    (hday : dayCondition? m left (session.dateLiteral t span) (session.dateLiteral next span) op =
      some e) : e.Everywhere (session.Tidy scope flags C) := by
  apply everywhere_of_dayCondition _ _ hday
  · intro connective low high _ _
    exact ⟨by simp, by simp [Expr.compare, Expr.truth?]⟩
  · intro mark bound field value hbound hfield hvalue
    have hsingle : bound ≠ .oneOf := by
      rintro rfl
      simp at hbound
    obtain rfl | rfl := hfield <;> obtain rfl | rfl := hvalue
    · exact ⟨hsingle, hleft, (hC.day hcondition hbound).1⟩
    · exact ⟨hsingle, hleft, (hC.day hcondition hbound).1⟩
    · exact ⟨hsingle, resolved_reference hleft, (hC.day hcondition hbound).2⟩
    · exact ⟨hsingle, resolved_reference hleft, (hC.day hcondition hbound).2⟩

/-- A condition is reduced to conditions of its kind. -/
theorem everywhere_tidy_of_reduceCondition (hC : session.Lasting scope C) {m : Mark}
    {op : Comparison} {left : FieldRef} {right e : Expr} (hop : op ≠ .oneOf)
    (hleft : left.Resolved session.schema scope) (hcondition : C op left right)
    (hreduce : session.reduceCondition again scope m op left right = .ok e) :
    e.Everywhere (session.Tidy scope flags C) := by
  cases reduced_of_reduceCondition hreduce with
  | choice listMark items hlist => exact absurd hlist hop
  | emptySearch hsearch htext he =>
      rw [he]
      trivial
  | present id hnot hid hpresent htext he =>
      rw [he]
      trivial
  | project project _ hid htext hproject he =>
      obtain ⟨-, area, harea, rfl⟩ := projectCondition_eq_ok he
      have hunder : session.Tidy scope flags C
          (.condition m .under area (.string { span := right.span } project)) :=
        ⟨by decide, resolved_of_areaField harea, hC.project hcondition harea⟩
      split
      · exact ⟨⟨rfl, nofun⟩, hunder⟩
      · exact hunder
  | day text _ hday htype htext hnonempty he =>
      obtain ⟨t, next, -, -, -, he⟩ := splitDay_eq_ok_dayCondition hleft he
      exact everywhere_tidy_of_dayCondition hC hleft hcondition he
  | same _ he =>
      rw [he]
      exact ⟨hop, hleft, hcondition⟩

theorem everywhere_tidy_of_reduce (hC : session.Lasting scope C) {e s : Expr}
    (hleaf : e.isLeaf = true) (he : session.Tidy scope flags C e)
    (hs : session.reduce again scope e = .ok s) : s.Everywhere (session.Tidy scope flags C) := by
  cases e with
  | condition m op left right =>
      obtain ⟨hop, hleft, hcondition⟩ := he
      exact everywhere_tidy_of_reduceCondition hC hop hleft hcondition hs
  | truth m value =>
      cases hs
      trivial
  | boolean m value =>
      cases hs
      exact he
  | field m f =>
      cases hs
      exact he
  | junction | not | ever => cases hleaf
  | _ => cases he

/-- What a condition is simplified to has what its reduction has, with its value in place;
for a list, what the comparisons with its values have. -/
theorem yields_condition {P : Expr → Prop} (hP : Expr.Hereditary P)
    (hreduce : ∀ again e s, e.isLeaf = true → P e → session.reduce again scope e = .ok s →
      s.Everywhere P)
    {m : Mark} {op : Comparison} {left : FieldRef} {right : Expr}
    (hresolved : (Expr.condition m op left right).Resolved session.schema scope)
    (hsingle : op ≠ .oneOf → ∀ again value s,
      Expr.simplifyWith (session.reduce again) (scope.withField left) right = .ok value →
        session.reduceCondition again scope m op left value = .ok s → s.Everywhere P)
    (hitem : op = .oneOf → ∀ again again' listMark items item mark s,
      Expr.simplifyWith (session.reduce again) (scope.withField left) right =
        .ok (.list listMark items) → item ∈ items →
          session.reduceCondition again' scope mark .equals left.reference item = .ok s →
            s.Everywhere P) :
    session.Yields (Expr.simplifyWith (session.reduce again)) scope P (.condition m op left right) := by
  intro _ s hs
  obtain ⟨value, hvalue, hs⟩ := Expr.simplifyWith_condition hs
  obtain ⟨-, hright, hcheck⟩ := hresolved.1
  by_cases hop : op = .oneOf
  · subst hop
    obtain ⟨-, hoperand, hsettled⟩ :=
      operandValue?_of_simplifyWith (isOperand_of_checkRight hright hcheck) hvalue
    obtain ⟨listMark, items, rfl, hagain⟩ := reduceCondition_oneOf hs
    have hconsts := Expr.allConst_iff.mp hoperand
    have hvalues := settled_list_iff.mp hsettled
    apply everywhere_of_alternatives hP (hreduce again)
      (fun item hitem => ⟨hconsts item hitem, hvalues item hitem⟩) _ hagain
    intro item hmem mark s hs
    exact hitem rfl _ again listMark items item mark s hvalue hmem hs
  · exact hsingle hop _ value s hvalue hs

theorem yields_tidy_condition (hC : session.Lasting scope C) {m : Mark} {op : Comparison}
    {left : FieldRef} {right : Expr}
    (hresolved : (Expr.condition m op left right).Resolved session.schema scope)
    (hcondition : C op left right) :
    session.Yields (Expr.simplifyWith (session.reduce again)) scope (session.Tidy scope flags C)
      (.condition m op left right) := by
  have hleft := hresolved.1.1
  apply yields_condition hereditary_tidy (fun _ _ _ => everywhere_tidy_of_reduce hC) hresolved
  · intro hop again value s hvalue hs
    exact everywhere_tidy_of_reduceCondition hC hop hleft (hC.value hcondition hvalue) hs
  · rintro rfl again again' listMark items item mark s hvalue hitem hs
    exact everywhere_tidy_of_reduceCondition hC (by decide) (resolved_reference hleft)
      (hC.item (hC.value hcondition hvalue) hitem) hs

/-! ## The whole clause -/

/-- What holds of the conditions of a clause and lasts holds of those of the simplified
clause. -/
theorem everywhere_tidy_of_simplify (hC : session.Lasting scope C) {e s : Expr}
    (hresolved : e.Resolved session.schema scope) (he : e.Everywhere (Expr.MadeOf flags C))
    (hsimplify : session.simplify scope e = .ok s) : s.Everywhere (session.Tidy scope flags C) := by
  have hparts : e.Everywhere fun e => e.Resolved session.schema scope ∧ Expr.MadeOf flags C e :=
    (Expr.everywhere_of_resolved (fun _ h _ => h) e hresolved hresolved).and he
  refine everywhere_of_yields hereditary_tidy (fun _ _ => everywhere_tidy_of_reduce hC)
    (hparts.imp ?_) (everywhere_admits ?_ e) hsimplify
  · rintro e ⟨hresolved, hmade⟩
    cases e with
    | condition m op left right => exact yields_tidy_condition hC hresolved hmade
    | truth m value =>
        intro _ s hs
        cases hs
        trivial
    | boolean m value =>
        intro _ s hs
        cases hs
        exact hmade
    | field m f =>
        intro _ s hs
        cases hs
        exact hmade
    | junction | not | ever => exact nofun
    | _ => cases hmade
  · intro m operand htruth _ _
    exact Expr.truth?_eq_none htruth

end Session

end TrackerQuery

import TrackerQuery.Proofs.BoundQuery
import TrackerQuery.Proofs.ResolvedValue

/-!
# Resolving a simplified query

The rules are checked while macros and arithmetic still stand where their values will
be.  Simplification puts the values in place and makes new comparisons out of old
ones, so a simplified query need not obey the rules any more.  It does, and resolves
to itself, if the values obey the rules that the macros and the arithmetic obeyed.
-/

namespace TrackerQuery

open Calendar (Zone)

namespace Expr

/-- A constant of the type of the field may stand on the right. -/
theorem checkRight_of_castsTo {schema : Schema} {op : Comparison} {left : FieldRef} {right : Expr}
    (hunder : op ≠ .under) (hgroup : op ≠ .inGroup) (hconst : right.isConst = true)
    (hcasts : right.castsTo schema.dates left.type = .ok true) :
    checkRight schema op left right = .ok () := by
  have htarget : ¬ (op = .under ∨ op = .inGroup) := by simp [hunder, hgroup]
  cases right with
  | field m f => cases hconst
  | list m items => exact Error.bind_ensure_eq_ok_iff.mpr hcasts
  | _ =>
      apply check_bind_eq_ok_iff.mpr
      rw [if_neg htarget]
      exact ⟨Error.ensure_eq_ok_iff.mpr hconst, Error.bind_ensure_eq_ok_iff.mpr hcasts⟩

end Expr

namespace Session

variable {session : Session} {again : Reduction} {scope scope' : Scope}

/-! ## The rules of a condition -/

/-- A step that succeeds with a value can be told from one that does not. -/
instance {ε α : Type} [DecidableEq α] (a : α) : (x : Except ε α) → Decidable (x = .ok a)
  | .ok b => decidable_of_iff (b = a) (by simp)
  | .error _ => isFalse nofun

def Obeys (session : Session) (scope : Scope) (m : Mark) (op : Comparison) (left : FieldRef)
    (right : Expr) : Prop :=
  Expr.checkRight session.schema op left right = .ok () ∧
    session.verifyCondition left op right m.span scope.mode = .ok ()

instance (session : Session) (scope : Scope) (m : Mark) (op : Comparison) (left : FieldRef)
    (right : Expr) : Decidable (session.Obeys scope m op left right) :=
  inferInstanceAs (Decidable (_ ∧ _))

theorem resolved_condition_iff {m : Mark} {op : Comparison} {left : FieldRef} {right : Expr} :
    (Expr.condition m op left right).Resolved session.schema scope ↔
      left.Resolved session.schema scope ∧
        right.Resolved session.schema (scope.withField left) ∧
        session.Obeys scope m op left right := by
  constructor
  · rintro ⟨⟨hleft, hright, hcheck⟩, hverify⟩
    exact ⟨hleft, hright, hcheck, hverify⟩
  · rintro ⟨hleft, hright, hcheck, hverify⟩
    exact ⟨⟨hleft, hright, hcheck⟩, hverify⟩

theorem verifyExpr_congr (htable : scope.table = scope'.table) (e : Expr) :
    session.verifyExpr scope e = session.verifyExpr scope' e := by
  cases e with
  | condition m op left right => simp only [verifyExpr, Scope.mode, htable]
  | _ => rfl

/-- Of a scope, only the table and the type of the field matter to a constant. -/
theorem partsResolved_congr (htable : scope.table = scope'.table)
    (htype : scope.fieldType? = scope'.fieldType?) (e : Expr) (hconst : e.isConst = true)
    (hresolved : e.PartsResolved session.schema scope) :
    e.PartsResolved session.schema scope' := by
  induction e with
  | string | number | boolean | truth => trivial
  | var m v => exact hresolved
  | list m items ih =>
      have hconsts := Expr.allConst_iff.mp hconst
      apply Expr.allResolved_iff.mpr
      intro item hitem
      obtain ⟨⟨hparts, hverify⟩, htest⟩ := Expr.allResolved_iff.mp hresolved item hitem
      have hverify : session.schema.verifyExpr scope' item = .ok () :=
        (verifyExpr_congr htable item).symm.trans hverify
      exact ⟨⟨ih item hitem (hconsts item hitem) hparts, hverify⟩, htest⟩
  | arithmetic m op left right type ihleft ihright =>
      obtain ⟨⟨hleft, hverifyLeft⟩, ⟨hright, hverifyRight⟩, hconstLeft, hconstRight, rfl⟩ :=
        hresolved
      refine ⟨⟨ihleft hconstLeft hleft, (verifyExpr_congr htable left).symm.trans hverifyLeft⟩,
        ⟨ihright hconstRight hright, (verifyExpr_congr htable right).symm.trans hverifyRight⟩,
        hconstLeft, hconstRight, ?_⟩
      simp only [Expr.arithmeticType, htype]
  | _ => cases hconst

theorem resolved_congr (htable : scope.table = scope'.table)
    (htype : scope.fieldType? = scope'.fieldType?) {e : Expr} (hconst : e.isConst = true)
    (hresolved : e.Resolved session.schema scope) : e.Resolved session.schema scope' :=
  ⟨partsResolved_congr htable htype e hconst hresolved.1,
    (verifyExpr_congr htable e).symm.trans hresolved.2⟩

/-- A value of a list that obeys the rules obeys them on its own. -/
theorem obeys_item {m listMark mark : Mark} {left : FieldRef} {items : List Expr} {item : Expr}
    (hobeys : session.Obeys scope m .oneOf left (.list listMark items)) (hitem : item ∈ items)
    (hconst : item.isConst = true) : session.Obeys scope mark .equals left.reference item := by
  obtain ⟨hcheck, hverify⟩ := hobeys
  have hcasts := Expr.castsTo_list_iff.mp (Error.bind_ensure_eq_ok_iff.mp hcheck) item hitem
  obtain ⟨-, hitems⟩ := verifyCondition_eq_ok_iff.mp hverify
  have hcomparison := hitems listMark items rfl rfl item hitem
  have hvalue : ∀ m f, item ≠ .field m f := by
    rintro m f rfl
    cases hconst
  constructor
  · exact Expr.checkRight_of_castsTo (by decide) (by decide) hconst hcasts
  · apply verifyCondition_eq_ok_iff.mpr
    exact ⟨verifyComparison_congr _ rfl hvalue hcomparison, by simp⟩

/-! ## Days -/

/-- Both ends of a day can be read as they are printed. -/
theorem isSome_instant?_of_day {text : String} {t next : Calendar.Instant}
    (ht : session.dates.instant? text = some t)
    (hmidnight : session.zone.isMidnight t = true)
    (hnext : session.zone.addDays? t 1 = some next) :
    (session.dates.instant? (t.renderLocal session.zone)).isSome = true ∧
      (session.dates.instant? (next.renderLocal session.zone)).isSome = true := by
  have hday := Calendar.Reading.isMidnight_iff.mp hmidnight
  obtain ⟨moved, hmoved, hnext⟩ := Option.bind_eq_some_iff.mp hnext
  obtain ⟨hmove, hrange⟩ := Option.filter_eq_some_iff.mp hmoved
  rw [hday, Calendar.Reading.move_ofDay] at hmove
  cases hmove
  obtain ⟨-, hupper⟩ := Bool.and_eq_true_iff.mp hrange
  have hlast := of_decide_eq_true hupper
  rw [Calendar.Reading.dayNumber_ofDay] at hlast
  constructor
  · exact Calendar.isSome_instant?_renderLocal _ _ hday (Calendar.isLate_of_instant? ht)
      (by omega)
  · exact Calendar.isSome_instant?_renderLocal _ _
      (Zone.reading_of_earliest? hnext) (Calendar.isLate_of_earliest? hnext) hlast

/-- A date that can be read may be compared with. -/
theorem obeys_day {mark : Mark} {op : Comparison} {left : FieldRef} {span : Span}
    {t : Calendar.Instant} (hop : op = .less ∨ op = .greaterOrEquals)
    (hleft : left.Resolved session.schema scope) (htype : left.type = .date)
    (hread : (session.dates.instant? (t.renderLocal session.zone)).isSome = true) :
    session.Obeys scope mark op left (session.dateLiteral t span) := by
  obtain ⟨definition, hdefinition, hdata⟩ := definition_of_resolved hleft
  have hkind : op ≠ .missing ∧ op ≠ .oneOf ∧ op ≠ .under ∧ op ≠ .inGroup := by
    obtain rfl | rfl := hop
    · decide
    · decide
  obtain ⟨hmissing, hlist, hunder, hgroup⟩ := hkind
  have hnonempty : t.renderLocal session.zone ≠ "" := by
    intro hempty
    rw [hempty] at hread
    cases hread
  have hcasts : (session.dateLiteral t span).castsTo session.dates left.type = .ok true := by
    obtain ⟨found, hfound⟩ := Option.isSome_iff_exists.mp hread
    rw [htype, dateLiteral]
    simp [Expr.castsTo, Expr.stringCastsTo, hnonempty, Except.map,
      DateStyle.instant_eq_ok_some_iff.mpr hfound]
  have hvalue : session.verifyValue definition left op (session.dateLiteral t span) mark.span
      scope.mode = .ok () := by
    apply verifyValue_eq_ok_iff.mpr
    refine ⟨fun h => absurd h hgroup, ?_, verifyByField_of_date (hdata.symm.trans htype),
      fun h => absurd h hunder⟩
    intro hempty
    exact absurd (Option.some.inj hempty) hnonempty
  constructor
  · exact Expr.checkRight_of_castsTo hunder hgroup rfl hcasts
  · apply verifyCondition_eq_ok_iff.mpr
    refine ⟨?_, fun _ _ h => absurd h hlist⟩
    apply (verifyComparison_eq_ok_iff (by simp [dateLiteral])).mpr
    exact ⟨hmissing, definition, hdefinition, fun _ => hvalue⟩

/-! ## Clauses that obey the rules -/

/-- A condition obeys the rules, and an `ever` stands over what is admitted there. -/
def Conforms (session : Session) (scope : Scope) : Expr → Prop
  | .condition m op left right => session.Obeys scope m op left right
  | .ever m operand => session.verifyEver operand m.span = .ok ()
  | _ => True

theorem conforms_of_resolved {e : Expr} (hresolved : e.Resolved session.schema scope) :
    session.Conforms scope e := by
  cases e with
  | condition m op left right => exact (resolved_condition_iff.mp hresolved).2.2
  | ever m operand => exact hresolved.2
  | _ => trivial

/-- What simplification leaves of a condition: one resolved value on the right, which
obeys the rules provided the values of the query do. -/
structure RuledCondition (session : Session) (scope : Scope) (provided : Prop) (m : Mark)
    (op : Comparison) (left : FieldRef) (right : Expr) : Prop where
  single : op ≠ .oneOf
  field : left.Resolved session.schema scope
  value : right.Resolved session.schema (scope.withField left)
  settled : session.Settled (scope.withField left) right
  obeys : provided → session.Obeys scope m op left right

def Ruled (session : Session) (scope : Scope) (provided : Prop) : Expr → Prop
  | .condition m op left right => session.RuledCondition scope provided m op left right
  | .ever m operand => provided → session.verifyEver operand m.span = .ok ()
  | e => session.ClausePart scope e

variable {provided : Prop}

theorem dataType_of_ruled {e : Expr} (he : session.Ruled scope provided e) :
    e.dataType = .bool := by
  cases e with
  | condition | junction | not | ever => rfl
  | _ => exact he.1

theorem conforms_of_ruled (hprovided : provided) {e : Expr}
    (he : session.Ruled scope provided e) : session.Conforms scope e := by
  cases e with
  | condition m op left right => exact he.obeys hprovided
  | ever m operand => exact he hprovided
  | _ => trivial

/-- A clause that simplification leaves is resolved once it obeys the rules. -/
theorem resolved_of_conforms (e : Expr) (hruled : e.Everywhere (session.Ruled scope provided))
    (hconforms : e.Everywhere (session.Conforms scope)) : e.Resolved session.schema scope := by
  have hboolean : ∀ {operand : Expr}, operand.Everywhere (session.Ruled scope provided) →
      Expr.ensureBoolean operand = .ok () := by
    intro operand hoperand
    exact Expr.ensureBoolean_eq_ok_iff.mpr (dataType_of_ruled hoperand.self)
  induction e with
  | junction m connective operands ih =>
      refine ⟨Expr.allResolved_iff.mpr fun operand hoperand => ?_, rfl⟩
      have hpart := Expr.allEverywhere_iff.mp hruled.2 operand hoperand
      have hconform := Expr.allEverywhere_iff.mp hconforms.2 operand hoperand
      exact ⟨ih operand hoperand hpart hconform, hboolean hpart⟩
  | not m operand ih => exact ⟨⟨ih hruled.2 hconforms.2, hboolean hruled.2⟩, rfl⟩
  | ever m operand ih => exact ⟨⟨ih hruled.2 hconforms.2, hboolean hruled.2⟩, hconforms.1⟩
  | condition m op left right ih =>
      exact resolved_condition_iff.mpr ⟨hruled.field, hruled.value, hconforms⟩
  | _ => exact hruled.2.2.2

theorem hereditary_ruled : Expr.Hereditary (session.Ruled scope provided) where
  truth m value := clausePart_truth m value
  junction _ := trivial
  not _ _ _ := trivial

/-- The comparisons with the ends of a day obey the rules. -/
theorem everywhere_ruled_of_dayCondition {m : Mark} {op : Comparison} {left : FieldRef}
    {span : Span} {t next : Calendar.Instant} {e : Expr}
    (hleft : left.Resolved session.schema scope) (htype : left.type = .date)
    (ht : (session.dates.instant? (t.renderLocal session.zone)).isSome = true)
    (hnext : (session.dates.instant? (next.renderLocal session.zone)).isSome = true)
    (he : dayCondition? m left (session.dateLiteral t span) (session.dateLiteral next span) op =
      some e) : e.Everywhere (session.Ruled scope provided) := by
  apply everywhere_of_dayCondition (fun _ _ => trivial) _ he
  intro mark bound field value hbound hfield hvalue
  have hsingle : bound ≠ .oneOf := by
    rintro rfl
    simp at hbound
  have hruled : ∀ {field : FieldRef} {t : Calendar.Instant}, field.Resolved session.schema scope →
      field.type = .date →
      (session.dates.instant? (t.renderLocal session.zone)).isSome = true →
        session.RuledCondition scope provided mark bound field (session.dateLiteral t span) :=
    fun hfield htype hread => ⟨hsingle, hfield, ⟨trivial, rfl⟩, settled_string _ _,
      fun _ => obeys_day hbound hfield htype hread⟩
  have hreference := resolved_reference hleft
  obtain rfl | rfl := hfield <;> obtain rfl | rfl := hvalue
  · exact hruled hleft htype ht
  · exact hruled hleft htype hnext
  · exact hruled hreference htype ht
  · exact hruled hreference htype hnext

/-- The condition on an area obeys the rules. -/
theorem everywhere_ruled_of_projectCondition {m : Mark} {op : Comparison} {left : FieldRef}
    {project : String} {span : Span} {e : Expr}
    (hproject : session.projectCondition scope m op left project span = .ok e) :
    e.Everywhere (session.Ruled scope provided) := by
  have hunder : ∀ {mark : Mark} {area : FieldRef},
      (Expr.condition mark .under area (.string { span } project)).Resolved session.schema scope →
        session.RuledCondition scope provided mark .under area (.string { span } project) := by
    intro mark area hresolved
    obtain ⟨hfield, hvalue, hobeys⟩ := resolved_condition_iff.mp hresolved
    exact ⟨by decide, hfield, hvalue, settled_string _ _, fun _ => hobeys⟩
  obtain ⟨hresolved, area, -, rfl⟩ := projectCondition_eq_ok hproject
  by_cases hop : op = .notEquals
  · rw [if_pos hop] at hresolved ⊢
    exact ⟨trivial, hunder hresolved.1.1⟩
  · rw [if_neg hop] at hresolved ⊢
    exact hunder hresolved

/-- What a condition becomes obeys the rules, if the condition does. -/
theorem everywhere_ruled_of_reduceCondition {m : Mark} {op : Comparison} {left : FieldRef}
    {right e : Expr}
    (hruled : session.RuledCondition scope provided m op left right)
    (hreduce : session.reduceCondition again scope m op left right = .ok e) :
    e.Everywhere (session.Ruled scope provided) := by
  cases reduced_of_reduceCondition hreduce with
  | choice listMark items hlist => exact absurd hlist hruled.single
  | emptySearch hsearch htext he =>
      rw [he]
      exact hereditary_ruled.truth _ _
  | present id hnot hid hpresent htext he =>
      rw [he]
      exact hereditary_ruled.truth _ _
  | project project _ hid htext hproject he => exact everywhere_ruled_of_projectCondition he
  | day text _ hday htype htext hnonempty he =>
      obtain ⟨t, next, ht, hmidnight, hnext, he⟩ := splitDay_eq_ok_dayCondition hruled.field he
      obtain ⟨hfirst, hsecond⟩ := isSome_instant?_of_day ht hmidnight hnext
      exact everywhere_ruled_of_dayCondition hruled.field htype hfirst hsecond he
  | same _ he =>
      rw [he]
      exact hruled

theorem everywhere_ruled_of_reduce {e s : Expr}
    (hleaf : e.isLeaf = true) (he : session.Ruled scope provided e)
    (hs : session.reduce again scope e = .ok s) : s.Everywhere (session.Ruled scope provided) := by
  cases e with
  | condition m op left right => exact everywhere_ruled_of_reduceCondition he hs
  | junction | not | ever => cases hleaf
  | _ =>
      rw [reduce_of_settled rfl he.2.2.1] at hs
      cases hs
      exact he

/-- The choice that a list stands for obeys the rules, if the list does. -/
theorem everywhere_ruled_of_alternatives {m listMark : Mark} {left : FieldRef} {items : List Expr} {e : Expr}
    (hleft : left.Resolved session.schema scope)
    (hlist : (Expr.list listMark items).Resolved session.schema (scope.withField left))
    (hsettled : session.Settled (scope.withField left) (.list listMark items))
    (hobeys : provided → session.Obeys scope m .oneOf left (.list listMark items))
    (hsimplify : Expr.simplifyWith (session.reduce again) scope (alternatives m left items) =
      .ok e) : e.Everywhere (session.Ruled scope provided) := by
  have htable : (scope.withField left).table = (scope.withField left.reference).table := rfl
  have htype : (scope.withField left).fieldType? = (scope.withField left.reference).fieldType? :=
    rfl
  have hconsts := Expr.allConst_iff.mp (Expr.isConst_of_resolved_list hlist)
  have hvalues := settled_list_iff.mp hsettled
  apply everywhere_of_alternatives hereditary_ruled
    (fun _ _ => everywhere_ruled_of_reduce)
    (fun item hitem => ⟨hconsts item hitem, hvalues item hitem⟩) _ hsimplify
  intro item hitem mark s hs
  obtain ⟨hresolved, -⟩ := Expr.allResolved_iff.mp hlist.1 item hitem
  have hruled : session.RuledCondition scope provided mark .equals left.reference item := by
    refine ⟨by decide, resolved_reference hleft, ?_, ?_, fun hprovided => ?_⟩
    · exact resolved_congr htable htype (hconsts item hitem) hresolved
    · exact settled_reference_iff.mpr (hvalues item hitem)
    · exact obeys_item (hobeys hprovided) hitem (hconsts item hitem)
  exact everywhere_ruled_of_reduceCondition hruled hs

/-! ## Values that obey the rules -/

/-- The name that a condition compares the team project with, if any. -/
def comparedProject? (session : Session) (scope : Scope) : Expr → Option String
  | .condition _ _ left right =>
      if left.id = some CoreField.teamProject then
        ((session.operandValue? (scope.withField left) right).bind Expr.literal?).filter
          fun project => !project.isEmpty
      else none
  | _ => none

/-- A condition obeys the rules with the value of its right side in place, and under
`ever` no team project is named. -/
def ValuesConform (session : Session) (scope : Scope) : Expr → Prop
  | .condition m op left right => ∀ value ∈ session.operandValue? (scope.withField left) right,
      session.Obeys scope m op left value
  | .ever _ operand => session.comparedProject? scope operand = none
  | _ => True

instance (session : Session) (scope : Scope) : DecidablePred (session.ValuesConform scope)
  | .condition m op left right =>
      inferInstanceAs (Decidable (∀ value ∈ session.operandValue? (scope.withField left) right,
        session.Obeys scope m op left value))
  | .ever _ operand => inferInstanceAs (Decidable (session.comparedProject? scope operand = none))
  | .string .. | .number .. | .boolean .. | .truth .. | .var .. | .field .. | .list ..
  | .arithmetic .. | .junction .. | .not .. => isTrue trivial

/-- What a condition is simplified to obeys the rules if its value does. -/
theorem yields_ruled_condition {m : Mark}
    {op : Comparison} {left : FieldRef} {right : Expr}
    (hresolved : (Expr.condition m op left right).Resolved session.schema scope)
    (hvalues : provided → session.ValuesConform scope (.condition m op left right)) :
    session.Yields (Expr.simplifyWith (session.reduce again)) scope
      (session.Ruled scope provided) (.condition m op left right) := by
  intro _ s hs
  obtain ⟨value, hsimplify, hs⟩ := Expr.simplifyWith_condition hs
  obtain ⟨hleft, hright, hcheck⟩ := hresolved.1
  have hvalueResolved := resolved_of_simplifyWith_right hresolved hsimplify
  obtain ⟨hvalue, -, hsettled⟩ :=
    operandValue?_of_simplifyWith (isOperand_of_checkRight hright hcheck) hsimplify
  have hobeys : provided → session.Obeys scope m op left value :=
    fun hprovided => hvalues hprovided value hvalue
  by_cases hop : op = .oneOf
  · subst hop
    obtain ⟨listMark, items, rfl, hagain⟩ := reduceCondition_oneOf hs
    exact everywhere_ruled_of_alternatives hleft hvalueResolved hsettled hobeys hagain
  · exact everywhere_ruled_of_reduceCondition
      ⟨hop, hleft, hvalueResolved, hsettled, hobeys⟩ hs

/-- What is admitted under `ever` is admitted with another right side too, if an empty
text stays one. -/
theorem verifyEver_value {m : Mark} {op : Comparison} {left : FieldRef} {right value : Expr}
    {span : Span} (hvalue : right.literal? = some "" → value.literal? = some "")
    (hverify : session.verifyEver (.condition m op left right) span = .ok ()) :
    session.verifyEver (.condition m op left value) span = .ok () := by
  unfold verifyEver at hverify ⊢
  dsimp only at hverify ⊢
  obtain ⟨hop, hverify⟩ := check_bind_eq_ok_iff.mp hverify
  refine check_bind_eq_ok_iff.mpr ⟨hop, ?_⟩
  by_cases hday : (left.type == .date && session.settings.dayPrecision) = true
  · rw [if_pos hday] at hverify ⊢
    obtain ⟨hempty, hverify⟩ := check_bind_eq_ok_iff.mp hverify
    refine check_bind_eq_ok_iff.mpr ⟨?_, hverify⟩
    have hempty := beq_iff_eq.mp (Error.ensure_eq_ok_iff.mp hempty)
    exact Error.ensure_eq_ok_iff.mpr (beq_iff_eq.mpr (hvalue hempty))
  · rw [if_neg hday] at hverify ⊢
    exact hverify

/-- An `ever` that is admitted over a condition is admitted over what becomes of it. -/
theorem admits_ruled_ever {m : Mark} {operand : Expr}
    (hverify : session.verifyEver operand m.span = .ok ())
    (hvalues : provided → session.ValuesConform scope (.ever m operand))
    (hresolved : operand.Resolved session.schema scope) :
    session.Admits again scope (session.Ruled scope provided) (.ever m operand) := by
  intro s hs htruth _ _ hprovided
  obtain ⟨m', op, left, right, rfl, hop, hday⟩ := verifyEver_eq_ok hverify
  obtain ⟨-, hright, hcheck⟩ := hresolved.1
  obtain ⟨value, hvalue, hs⟩ := Expr.simplifyWith_condition hs
  have hempty : right.literal? = some "" → value.literal? = some "" := by
    intro hliteral
    rw [simplifyWith_literal hliteral] at hvalue
    cases hvalue
    exact hliteral
  obtain ⟨hvalue, -, -⟩ :=
    operandValue?_of_simplifyWith (isOperand_of_checkRight hright hcheck) hvalue
  cases reduced_of_reduceCondition hs with
  | choice listMark items hlist =>
      rw [hlist] at hop
      simp [Comparison.isSearch] at hop
  | emptySearch hsearch htext he => exact absurd he (htruth _ _)
  | present id hnot hid hpresent htext he => exact absurd he (htruth _ _)
  | project project _ hid htext hproject he =>
      have hnone := hvalues hprovided
      simp [ValuesConform, comparedProject?, hid, hvalue, htext, hproject] at hnone
  | day text _ hprecise hdate htext hnonempty he =>
      rw [hempty (hday hdate hprecise)] at htext
      exact absurd (Option.some.inj htext).symm hnonempty
  | same _ he =>
      rw [he]
      exact verifyEver_value hempty hverify

/-- A simplified clause obeys the rules, if the values in it do. -/
theorem everywhere_ruled_of_simplify {e s : Expr}
    (hresolved : e.Resolved session.schema scope) (htype : e.dataType = .bool)
    (hvalues : provided → e.Everywhere (session.ValuesConform scope))
    (hsimplify : session.simplify scope e = .ok s) :
    s.Everywhere (session.Ruled scope provided) := by
  have hparts := (Expr.everywhere_of_resolved (fun _ => And.intro) e hresolved
    ⟨hresolved, htype⟩).and (Expr.everywhere_imp hvalues)
  refine everywhere_of_yields hereditary_ruled (fun _ _ => everywhere_ruled_of_reduce)
    (hparts.imp ?_) (hparts.imp ?_) hsimplify
  · rintro e ⟨⟨hresolved, htype⟩, hvalues⟩
    have hpart := clausePart_of_resolved hresolved htype
    cases e with
    | junction | not | ever => exact nofun
    | condition m op left right => exact yields_ruled_condition hresolved hvalues
    | _ =>
        intro _ s hs
        obtain ⟨hvalue, -, -⟩ := operandValue?_of_simplifyWith hpart.2.1 hs
        cases Option.some.inj (hvalue.symm.trans hpart.2.2.1)
        exact hpart
  · rintro e ⟨⟨hresolved, -⟩, hvalues⟩
    cases e with
    | ever m operand => exact admits_ruled_ever hresolved.2 hvalues hresolved.1.1
    | _ => trivial

/-! ## The point in time -/

/-- A point in time is a constant or a field. -/
theorem isOperand_of_moment {e : Expr} (hresolved : e.Resolved session.schema scope)
    (hdate : e.castsTo session.dates .date = .ok true) : e.isOperand = true := by
  cases e with
  | list m items => exact Expr.isConst_of_resolved_list hresolved
  | arithmetic m op left right type => exact Expr.isConst_of_resolved_arithmetic hresolved
  | condition | junction | not | ever => cases hdate
  | _ => rfl

/-- The value of a point in time is resolved, as it is compared with no field. -/
theorem resolved_of_simplifyWith_moment (hfield : scope.field = none) {e s : Expr}
    (hresolved : e.Resolved session.schema scope)
    (hdate : e.castsTo session.dates .date = .ok true)
    (hsimplify : Expr.simplifyWith (session.reduce again) scope e = .ok s) :
    session.operandValue? scope e = some s ∧ s.Resolved session.schema scope := by
  have hoperand := isOperand_of_moment hresolved hdate
  obtain ⟨hvalue, -, -⟩ := operandValue?_of_simplifyWith hoperand hsimplify
  refine ⟨hvalue, ?_⟩
  cases e with
  | field m f =>
      cases hsimplify
      exact hresolved
  | _ =>
      apply resolved_of_simplifyWith_const _ s hoperand hresolved _ hsimplify
      intro type htype
      rw [Scope.fieldType?, hfield] at htype
      cases htype

/-! ## Queries -/

/-- Of the filter and the point in time, the rules for queries ask only whether there
is a point in time. -/
theorem verifyQuery_congr {query : Select} {filter asOf : Option Expr}
    (hasOf : asOf.isSome = query.asOf.isSome) (hverify : verifyQuery query = .ok ()) :
    verifyQuery { query with filter, asOf } = .ok () := by
  unfold verifyQuery at hverify ⊢
  dsimp only at hverify ⊢
  cases htable : query.table.filter fun table => table.resolved.isSome with
  | none =>
      rw [htable] at hverify
      cases hverify
  | some table =>
      rw [htable] at hverify
      cases hgrouping : query.grouping with
      | some grouping =>
          rw [hgrouping] at hverify
          cases hverify
      | none =>
          rw [hgrouping] at hverify
          cases hmoment : query.asOf <;> cases asOf <;> simp_all

variable {bound simplified : Select}

/-- A simplified query resolves to itself just if its conditions obey the rules and its
point in time is a date. -/
theorem bind_simplified_iff
    (hresolved : bound.Resolved session.schema)
    (hsimplify : session.simplifyQuery bound = .ok simplified) :
    session.bind simplified = .ok simplified ↔
      (∀ clause ∈ simplified.filter,
        clause.Everywhere (session.Conforms { table := bound.table })) ∧
        ∀ moment ∈ simplified.asOf, moment.castsTo session.dates .date = .ok true := by
  obtain ⟨filter, asOf, hfilter, hasOf, rfl⟩ := Select.simplifyWith_eq_ok hsimplify
  rw [Session.bind, ← Select.resolved_iff session.schema_canonical]
  constructor
  · intro hagain
    constructor
    · intro clause hclause
      obtain ⟨hclause, -⟩ := hagain.filter clause hclause
      exact Expr.everywhere_of_resolved (fun _ h _ => conforms_of_resolved h) clause hclause
        (conforms_of_resolved hclause)
    · intro moment hmoment
      exact (hagain.asOf moment hmoment).2
  · rintro ⟨hconforms, hdates⟩
    obtain ⟨table, htable, hbindTable⟩ := hresolved.table
    refine ⟨⟨table, htable, Select.bindTable_again hbindTable _ htable rfl⟩, hresolved.columns,
      ?_, hresolved.grouping, hresolved.ordering, ?_, ?_⟩
    · rintro clause rfl
      obtain ⟨e, he, hs⟩ := Select.onClause_eq_ok_iff.mp hfilter
      obtain ⟨hbound, hboolean⟩ := hresolved.filter e he
      have htype := Expr.ensureBoolean_eq_ok_iff.mp hboolean
      have hruled : clause.Everywhere (session.Ruled { table := bound.table } False) :=
        everywhere_ruled_of_simplify hbound htype False.elim hs
      refine ⟨resolved_of_conforms clause hruled (hconforms clause rfl), ?_⟩
      exact Expr.ensureBoolean_eq_ok_iff.mpr (dataType_of_ruled hruled.self)
    · rintro moment rfl
      obtain ⟨e, he, hs⟩ := Select.onClause_eq_ok_iff.mp hasOf
      obtain ⟨hbound, hdate⟩ := hresolved.asOf e he
      exact ⟨(resolved_of_simplifyWith_moment rfl hbound hdate hs).2, hdates moment rfl⟩
    · apply verifyQuery_congr _ hresolved.rules
      cases hmoment : bound.asOf with
      | none =>
          rw [hmoment] at hasOf
          cases hasOf
          rfl
      | some moment =>
          rw [hmoment] at hasOf
          obtain ⟨value, -, rfl⟩ := map_eq_ok_iff.mp hasOf
          rfl

/-- A simplified query resolves to itself if the values in it obey the rules. -/
theorem bind_simplified
    (hresolved : bound.Resolved session.schema)
    (hsimplify : session.simplifyQuery bound = .ok simplified)
    (hvalues : ∀ clause ∈ bound.filter,
      clause.Everywhere (session.ValuesConform { table := bound.table }))
    (hmoments : ∀ moment ∈ bound.asOf,
      ∀ value ∈ session.operandValue? { table := bound.table } moment,
        value.castsTo session.dates .date = .ok true) :
    session.bind simplified = .ok simplified := by
  apply (bind_simplified_iff hresolved hsimplify).mpr
  obtain ⟨filter, asOf, hfilter, hasOf, rfl⟩ := Select.simplifyWith_eq_ok hsimplify
  constructor
  · rintro clause rfl
    obtain ⟨e, he, hs⟩ := Select.onClause_eq_ok_iff.mp hfilter
    obtain ⟨hbound, hboolean⟩ := hresolved.filter e he
    have htype := Expr.ensureBoolean_eq_ok_iff.mp hboolean
    have hruled : clause.Everywhere (session.Ruled { table := bound.table } True) :=
      everywhere_ruled_of_simplify hbound htype (fun _ => hvalues e he) hs
    exact hruled.imp fun _ => conforms_of_ruled trivial
  · rintro moment rfl
    obtain ⟨e, he, hs⟩ := Select.onClause_eq_ok_iff.mp hasOf
    obtain ⟨hbound, hdate⟩ := hresolved.asOf e he
    exact hmoments e he moment (resolved_of_simplifyWith_moment rfl hbound hdate hs).1

end Session

namespace Compiler

variable {compiler : Compiler} {session : Session} {text : String} {bound optimized : Select}

theorem bind_eq_ok_iff_session (hsession : compiler.session = .ok session) :
    compiler.bind text = .ok bound ↔
      ∃ query, Select.parse text = .ok query ∧ session.bind query = .ok bound := by
  rw [bind, bind_eq_ok_iff, hsession]
  rfl

theorem optimize_eq_ok_iff_session (hsession : compiler.session = .ok session) :
    compiler.optimize text = .ok optimized ↔
      ∃ query, Select.parse text = .ok query ∧
        ∃ bound, session.bind query = .ok bound ∧ session.simplifyQuery bound = .ok optimized := by
  rw [optimize, hsession]
  show session.optimize text = .ok optimized ↔ _
  simp only [Session.optimize, bind_eq_ok_iff]

end Compiler

/-- Resolving an optimized query again leaves it as it is, just if its conditions, what
stands under `ever` and its point in time obey the rules; nothing else can stand in the
way.  They do obey the rules if the query as it was resolved does so with the values of
its macros and its arithmetic in place, and if no `ever` stands over a team project,
which becomes a condition on an area. -/
theorem Compiler.bind_optimized {compiler : Compiler} {session : Session} {text : String}
    {bound optimized : Select} (hsession : compiler.session = .ok session)
    (hbind : compiler.bind text = .ok bound) (hoptimize : compiler.optimize text = .ok optimized) :
    (session.bind optimized = .ok optimized ↔
      (∀ clause ∈ optimized.filter,
        clause.Everywhere (session.Conforms { table := bound.table })) ∧
        ∀ moment ∈ optimized.asOf, moment.castsTo session.dates .date = .ok true) ∧
      ((∀ clause ∈ bound.filter,
        clause.Everywhere (session.ValuesConform { table := bound.table })) →
        (∀ moment ∈ bound.asOf,
          ∀ value ∈ session.operandValue? { table := bound.table } moment,
            value.castsTo session.dates .date = .ok true) →
          session.bind optimized = .ok optimized) := by
  obtain ⟨query, hquery, hbind⟩ := (bind_eq_ok_iff_session hsession).mp hbind
  obtain ⟨parsed, hparsed, found, hfound, hsimplify⟩ :=
    (optimize_eq_ok_iff_session hsession).mp hoptimize
  cases Except.ok.inj (hquery.symm.trans hparsed)
  cases Except.ok.inj (hbind.symm.trans hfound)
  have hresolved := Select.resolved_of_bind hbind
  constructor
  · exact Session.bind_simplified_iff hresolved hsimplify
  · exact Session.bind_simplified hresolved hsimplify

/-- Days behind UTC: a list with today, the path and the user that macros stand for, a
project, and a point in time. -/
theorem Compiler.bind_optimized_macros :
    ∃ session bound optimized,
      let compiler : Compiler :=
        { catalog := { Catalog.dated with currentUser := "Jane", areas := [.mk 1 "Fabrikam" []] },
          settings := { dayPrecision := true, timeZone := "Etc/GMT+5" },
          context := [("root", .string "Fabrikam")] }
      let text := "select [System.Id] from WorkItems where [Area Path] under @root " ++
        "and not [Created Date] in (@today, '2024-02-29') and ever [Assigned To] = @me " ++
        "and [Team Project] <> 'Fabrikam' asof @today"
      compiler.session = .ok session ∧ compiler.bind text = .ok bound ∧
      compiler.optimize text = .ok optimized ∧
      (∀ clause ∈ bound.filter,
        clause.Everywhere (session.ValuesConform { table := bound.table })) ∧
      (∀ moment ∈ bound.asOf,
        ∀ value ∈ session.operandValue? { table := bound.table } moment,
          value.castsTo session.dates .date = .ok true) ∧
      session.bind optimized = .ok optimized := by
  have hcompiles : (do
      let compiler : Compiler :=
        { catalog := { Catalog.dated with currentUser := "Jane", areas := [.mk 1 "Fabrikam" []] },
          settings := { dayPrecision := true, timeZone := "Etc/GMT+5" },
          context := [("root", .string "Fabrikam")] }
      let text := "select [System.Id] from WorkItems where [Area Path] under @root " ++
        "and not [Created Date] in (@today, '2024-02-29') and ever [Assigned To] = @me " ++
        "and [Team Project] <> 'Fabrikam' asof @today"
      let session ← compiler.session.toOption
      let query ← (Select.parse text).toOption
      let bound ← (session.bind query).toOption
      guard (∀ clause ∈ bound.filter,
        clause.Everywhere (session.ValuesConform { table := bound.table }))
      guard (∀ moment ∈ bound.asOf,
        ∀ value ∈ session.operandValue? { table := bound.table } moment,
          value.castsTo session.dates .date = Except.ok true)
      (session.simplifyQuery bound).toOption).isSome = true := by
    decide +kernel
  obtain ⟨optimized, hcompiles⟩ := Option.isSome_iff_exists.mp hcompiles
  obtain ⟨session, hsession, hcompiles⟩ := toOption_bind_eq_some_iff.mp hcompiles
  obtain ⟨query, hquery, hcompiles⟩ := toOption_bind_eq_some_iff.mp hcompiles
  obtain ⟨bound, hbound, hcompiles⟩ := toOption_bind_eq_some_iff.mp hcompiles
  obtain ⟨_, hvalues, hcompiles⟩ := Option.bind_eq_some_iff.mp hcompiles
  obtain ⟨_, hmoments, hcompiles⟩ := Option.bind_eq_some_iff.mp hcompiles
  have hvalues := guard_eq_some_iff.mp hvalues
  have hmoments := guard_eq_some_iff.mp hmoments
  have hsimplify := toOption_eq_some_iff.mp hcompiles
  have hbind := (bind_eq_ok_iff_session hsession).mpr ⟨query, hquery, hbound⟩
  have hoptimize :=
    (optimize_eq_ok_iff_session hsession).mpr ⟨query, hquery, bound, hbound, hsimplify⟩
  exact ⟨session, bound, optimized, hsession, hbind, hoptimize, hvalues, hmoments,
    (bind_optimized hsession hbind hoptimize).2 hvalues hmoments⟩

/-- A macro may stand where its value may not: the name of the user is text, but no path
in the tree of areas. -/
theorem Compiler.bind_optimized_fails :
    ∃ session optimized error,
      let compiler : Compiler := { catalog := { Catalog.core with currentUser := "Jane" } }
      compiler.session = .ok session ∧
      compiler.optimize "select [System.Id] from WorkItems where [Area Path] = @me" =
        .ok optimized ∧
      session.bind optimized = .error error := by
  have hcompiles : (do
      let compiler : Compiler := { catalog := { Catalog.core with currentUser := "Jane" } }
      let session ← compiler.session.toOption
      let optimized ← (compiler.optimize
        "select [System.Id] from WorkItems where [Area Path] = @me").toOption
      return (session.bind optimized).toOption.isNone) = some true := by
    decide +kernel
  obtain ⟨session, hsession, hcompiles⟩ := toOption_bind_eq_some_iff.mp hcompiles
  obtain ⟨optimized, hoptimize, hcompiles⟩ := toOption_bind_eq_some_iff.mp hcompiles
  cases hagain : session.bind optimized with
  | ok query =>
      rw [hagain] at hcompiles
      cases hcompiles
  | error error => exact ⟨session, optimized, error, hsession, hoptimize, hagain⟩

end TrackerQuery

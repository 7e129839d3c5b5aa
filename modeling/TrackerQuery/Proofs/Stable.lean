import TrackerQuery.Calendar.KnownZone
import TrackerQuery.Proofs.DateText
import TrackerQuery.Proofs.SimplifiedClause
import TrackerQuery.Proofs.SimplifiedTruth

/-!
# Simplifying again

A simplified clause is stable: simplifying it again leaves it as it is.  The
connectives pass stability on, so only what becomes of a condition has to be looked
at.  The one rewrite whose outcome is rewritten again is the comparison by the day;
it is stable because a printed midnight is read back, and because the next day has
a midnight too.
-/

namespace TrackerQuery

open Calendar (Date Zone)

/-- Resolving a field with the qualifier that it was given comes to the same. -/
theorem FieldRef.bind_bound {schema : Schema} {scope : Scope} {field bound : FieldRef}
    (hcanonical : schema.Canonical) (hbind : (field.bind schema scope).toExcept = .ok bound) :
    (FieldRef.bind schema scope { field with qualifier := bound.qualifier }).toExcept = .ok bound ∧
      bound.span = field.span := by
  unfold FieldRef.bind at hbind
  split at hbind
  · cases hbind
  · rename_i id hname
    dsimp only at hbind
    split at hbind
    · rename_i qualifier hqualifier
      cases hbind
      have hagain := hcanonical _ _ _ hqualifier
      dsimp only at hagain
      refine ⟨?_, rfl⟩
      simp only [FieldRef.bind, hname, Attempt.done, hagain]
      rfl
    · cases hbind

namespace Expr

variable {reduce : Reduction} {scope : Scope}

theorem simplifyAll_eq_self {es : List Expr}
    (hes : ∀ e ∈ es, simplifyWith reduce scope e = .ok e) :
    simplifyAll reduce scope es = .ok es := by
  induction es with
  | nil => rfl
  | cons e es ih =>
      obtain ⟨hfirst, hothers⟩ := List.forall_mem_cons.mp hes
      rw [simplifyAll, hfirst, ih hothers]
      rfl

/-- Operands that are simplified and have no truth value are all left. -/
theorem foldOperands_eq_self {identity : Bool} {es : List Expr}
    (hes : ∀ e ∈ es, e.truth? = none ∧ simplifyWith reduce scope e = .ok e) :
    foldOperands reduce scope identity es = .ok (some es) := by
  induction es with
  | nil => rfl
  | cons e es ih =>
      obtain ⟨⟨htruth, hfirst⟩, hothers⟩ := List.forall_mem_cons.mp hes
      rw [foldOperands]
      apply bind_eq_ok_iff.mpr
      refine ⟨e, hfirst, ?_⟩
      simp only [htruth]
      apply bind_eq_ok_iff.mpr
      exact ⟨some es, ih hothers, rfl⟩

end Expr

namespace Session

variable {session : Session} {again : Reduction} {scope : Scope}

/-! ## Values -/

theorem settled_of_arithmetic {m : Mark} {op : Arithmetic} {left right : Expr} {type : DataType}
    (hsettled : session.Settled scope (.arithmetic m op left right type)) :
    session.Settled scope left ∧ session.Settled scope right := by
  obtain ⟨left', hleft, hsettled⟩ := Option.bind_eq_some_iff.mp hsettled
  obtain ⟨right', hright, hsettled⟩ := Option.bind_eq_some_iff.mp hsettled
  obtain ⟨_, _, heq⟩ | ⟨_, _, heq⟩ | heq := foldArithmetic_eq_ok (toOption_eq_some_iff.mp hsettled)
  · cases heq
  · cases heq
  · cases heq
    exact ⟨hleft, hright⟩

/-- A value is simplified already. -/
theorem simplifyWith_of_settled_const (e : Expr) (hconst : e.isConst = true)
    (hsettled : session.Settled scope e) :
    Expr.simplifyWith (session.reduce again) scope e = .ok e := by
  induction e with
  | arithmetic m op left right type ihleft ihright =>
      obtain ⟨hleft, hright⟩ := settled_of_arithmetic hsettled
      obtain ⟨hconstLeft, hconstRight⟩ := Bool.and_eq_true_iff.mp hconst
      rw [Expr.simplifyWith, ihleft hconstLeft hleft, ihright hconstRight hright]
      show session.reduce again scope (.arithmetic m op left right type) = _
      exact reduce_of_settled rfl hsettled
  | list m items ih =>
      have hitems := settled_list_iff.mp hsettled
      have hconsts := Expr.allConst_iff.mp hconst
      rw [Expr.simplifyWith, Expr.simplifyAll_eq_self fun item hitem =>
        ih item hitem (hconsts item hitem) (hitems item hitem)]
      rfl
  | string | number | boolean | truth | var => exact reduce_of_settled rfl hsettled
  | _ => cases hconst

theorem simplifyWith_of_settled {e : Expr} (hoperand : e.isOperand = true)
    (hsettled : session.Settled scope e) :
    Expr.simplifyWith (session.reduce again) scope e = .ok e := by
  cases e with
  | field m f => rfl
  | _ => exact simplifyWith_of_settled_const _ hoperand hsettled

/-- The choice between the values of a list has what every comparison with one of them
comes to have. -/
theorem everywhere_of_alternatives {P : Expr → Prop} (hP : Expr.Hereditary P)
    (hreduce : ∀ e s, e.isLeaf = true → P e → session.reduce again scope e = .ok s →
      s.Everywhere P)
    {m : Mark} {left : FieldRef} {items : List Expr} {e : Expr}
    (hitems : ∀ item ∈ items, item.isConst = true ∧ session.Settled (scope.withField left) item)
    (hitem : ∀ item ∈ items, ∀ mark s,
      session.reduceCondition again scope mark .equals left.reference item = .ok s →
        s.Everywhere P)
    (hsimplify : Expr.simplifyWith (session.reduce again) scope (alternatives m left items) =
      .ok e) : e.Everywhere P := by
  refine everywhere_of_yields hP hreduce ?_ ?_ hsimplify
  · refine ⟨nofun, Expr.allEverywhere_iff.mpr fun operand hoperand => ?_⟩
    obtain ⟨item, hmem, rfl⟩ := List.mem_map.mp hoperand
    obtain ⟨hconst, hsettled⟩ := hitems item hmem
    intro _ s hs
    obtain ⟨value, hvalue, hs⟩ := Expr.simplifyWith_condition hs
    rw [simplifyWith_of_settled_const item hconst (settled_reference_iff.mpr hsettled)] at hvalue
    cases hvalue
    exact hitem item hmem _ s hs
  · refine ⟨trivial, Expr.allEverywhere_iff.mpr fun operand hoperand => ?_⟩
    obtain ⟨item, -, rfl⟩ := List.mem_map.mp hoperand
    trivial

/-! ## Stable clauses -/

/-- Neither simplification nor reduction changes the expression, whatever is done
with what they make. -/
structure Stable (session : Session) (scope : Scope) (e : Expr) : Prop where
  simplify : ∀ again, Expr.simplifyWith (session.reduce again) scope e = .ok e
  reduce : ∀ again, session.reduce again scope e = .ok e

theorem stable_of_settled {e : Expr} (hoperand : e.isOperand = true)
    (hsettled : session.Settled scope e) : session.Stable scope e := by
  have hvalue : e.isCondition = false := by
    cases e <;> first | rfl | cases hoperand
  exact ⟨fun _ => simplifyWith_of_settled hoperand hsettled,
    fun _ => reduce_of_settled hvalue hsettled⟩

theorem hereditary_stable : Expr.Hereditary (session.Stable scope) where
  truth m value := ⟨fun _ => rfl, fun _ => rfl⟩
  junction {m connective first second others} hoperands := by
    refine ⟨fun again => ?_, fun _ => rfl⟩
    rw [Expr.simplifyWith, Expr.foldOperands_eq_self fun e he =>
      ⟨(hoperands e he).1, (hoperands e he).2.self.simplify again⟩]
    rfl
  not {m operand} htruth hnot hoperand := by
    refine ⟨fun again => ?_, fun _ => rfl⟩
    rw [Expr.simplifyWith, hoperand.self.simplify again]
    cases operand with
    | truth m' value => exact absurd rfl (htruth m' value)
    | not m' e => exact absurd rfl (hnot m' e)
    | _ => rfl

theorem stable_ever {m : Mark} {operand : Expr} (htruth : ∀ m' value, operand ≠ .truth m' value)
    (hever : ∀ m' e, operand ≠ .ever m' e) (hoperand : operand.Everywhere (session.Stable scope)) :
    session.Stable scope (.ever m operand) := by
  refine ⟨fun again => ?_, fun _ => rfl⟩
  rw [Expr.simplifyWith, hoperand.self.simplify again]
  cases operand with
  | truth m' value => exact absurd rfl (htruth m' value)
  | ever m' e => exact absurd rfl (hever m' e)
  | _ => rfl

/-! ## Conditions -/

/-- What is simplified again matters to lists only. -/
theorem reduceCondition_congr {m : Mark} {op : Comparison} {left : FieldRef} {right : Expr}
    (hop : op ≠ .oneOf) (again again' : Reduction) :
    session.reduceCondition again scope m op left right =
      session.reduceCondition again' scope m op left right := by
  unfold reduceCondition
  rw [if_neg hop, if_neg hop]

/-- A condition is stable if its right side is a value and reduction keeps it. -/
theorem stable_condition (again : Reduction) {m : Mark} {op : Comparison} {left : FieldRef}
    {right : Expr} (hop : op ≠ .oneOf) (hoperand : right.isOperand = true)
    (hsettled : session.Settled (scope.withField left) right)
    (hreduce : session.reduceCondition again scope m op left right =
      .ok (.condition m op left right)) :
    session.Stable scope (.condition m op left right) := by
  have hkept : ∀ again, session.reduce again scope (.condition m op left right) =
      .ok (.condition m op left right) := by
    intro again'
    rw [← hreduce]
    exact reduceCondition_congr hop again' again
  refine ⟨fun again => ?_, hkept⟩
  rw [Expr.simplifyWith, simplifyWith_of_settled hoperand hsettled]
  exact hkept again

variable {m : Mark} {op : Comparison} {left : FieldRef} {right : Expr} {text : String}
  {definition : FieldDefinition}

/-- A comparison with a text that is not empty depends on the field: a team project,
a date, or any other. -/
theorem reduceCondition_of_literal (hop : op ≠ .oneOf)
    (hdefinition : session.definition left = .ok definition)
    (htext : right.literal? = some text) (hnonempty : text ≠ "") :
    session.reduceCondition again scope m op left right =
      if definition.id = CoreField.teamProject then
        session.projectCondition scope m op left text right.span
      else if session.settings.dayPrecision && left.type == .date then
        session.splitDay scope m op left text right.span
      else .ok (.condition m op left right) := by
  have hsearch : (op.isSearch && right.literal? == some "") = false := by
    simp [htext, hnonempty]
  have hliteral : (right.literal?.filter fun text => !text.isEmpty) = some text := by
    simp [htext, hnonempty]
  unfold reduceCondition
  rw [if_neg hop, hsearch, hdefinition]
  simp only [hliteral]
  rfl

theorem definition_of_resolved (hleft : left.Resolved session.schema scope) :
    ∃ definition, session.definition left = .ok definition ∧ left.type = definition.dataType := by
  obtain ⟨definition, hdefinition, htype, -⟩ := knows_of_resolved hleft
  exact ⟨definition, by rw [Session.definition, hdefinition], htype⟩

/-! ## Team projects -/

/-- A field that is compared by `under` holds text. -/
theorem dataType_of_under {textMark : Mark} {area : FieldRef}
    (hdefinition : session.definition area = .ok definition)
    (hverify : session.verifyExpr scope (.condition m .under area (.string textMark text)) =
      .ok ()) : definition.dataType = .string := by
  obtain ⟨hcomparison, -⟩ := verifyCondition_eq_ok_iff.mp hverify
  obtain ⟨-, found, hfound, hvalue⟩ := (verifyComparison_eq_ok_iff (by simp)).mp hcomparison
  cases Except.ok.inj (hdefinition.symm.trans hfound)
  obtain ⟨-, -, -, hunder⟩ := verifyValue_eq_ok_iff.mp (hvalue (by decide))
  have htype := hunder rfl
  unfold FieldDefinition.dataType
  rw [htype]
  split <;> rfl

/-- The area of an area is the area. -/
theorem areaField_again {area : FieldRef} (harea : session.areaField scope left = .ok area) :
    session.areaField scope area = .ok area := by
  unfold areaField at harea ⊢
  split at harea
  · cases harea
  · obtain ⟨hagain, hspan⟩ := FieldRef.bind_bound session.schema_canonical harea
    rw [hspan]
    exact hagain

theorem resolved_of_areaField {area : FieldRef}
    (harea : session.areaField scope left = .ok area) : area.Resolved session.schema scope := by
  unfold areaField at harea
  split at harea
  · cases harea
  · exact FieldRef.resolved_of_bind harea

/-- The condition that a team project became is what it becomes itself. -/
theorem projectCondition_again {area : FieldRef} {span : Span}
    (harea : session.areaField scope left = .ok area)
    (hresolved : (Expr.condition m .under area (.string { span } text)).Resolved
      session.schema scope) :
    session.projectCondition scope m .under area text span =
      .ok (.condition m .under area (.string { span } text)) := by
  have hagain := areaField_again harea
  unfold areaField at hagain
  split at hagain
  · cases hagain
  · rename_i path hpath
    unfold projectCondition
    have hself := (FieldRef.resolved_iff session.schema_canonical).mp (resolved_of_areaField harea)
    rw [hpath, ← (Expr.resolved_iff session.schema_canonical).mp hresolved]
    show (Expr.bind session.schema scope
      (.condition m .under _ (.string { span } text))).toExcept = _
    rw [Expr.bind, Expr.bind, Attempt.toExcept_check, Attempt.toExcept_check, Expr.bindParts,
      Expr.bindParts, Attempt.toExcept_andThen, Attempt.toExcept_andThen, hagain, hself]

/-- A condition on the area of a team project is stable. -/
theorem stable_under {area : FieldRef} {span : Span}
    (harea : session.areaField scope left = .ok area) (hnonempty : text ≠ "")
    (hresolved : (Expr.condition m .under area (.string { span } text)).Resolved
      session.schema scope) :
    session.Stable scope (.condition m .under area (.string { span } text)) := by
  obtain ⟨definition, hdefinition, htype⟩ := definition_of_resolved (resolved_of_areaField harea)
  apply stable_condition (fun _ e => .ok e) (by decide) rfl (settled_string _ _)
  rw [reduceCondition_of_literal (by decide) hdefinition rfl hnonempty]
  by_cases hid : definition.id = CoreField.teamProject
  · rw [if_pos hid]
    exact projectCondition_again harea hresolved
  · rw [if_neg hid, if_neg]
    rw [htype, dataType_of_under hdefinition hresolved.2]
    simp

theorem everywhere_stable_of_projectCondition {span : Span} {e : Expr} (hnonempty : text ≠ "")
    (hproject : session.projectCondition scope m op left text span = .ok e) :
    e.Everywhere (session.Stable scope) := by
  obtain ⟨hresolved, area, harea, rfl⟩ := projectCondition_eq_ok hproject
  by_cases hop : op = .notEquals
  · rw [if_pos hop] at hresolved ⊢
    have hstable := stable_under harea hnonempty hresolved.1.1
    exact ⟨hereditary_stable.not (by simp) (by simp) hstable, hstable⟩
  · rw [if_neg hop] at hresolved ⊢
    exact stable_under harea hnonempty hresolved

/-! ## Days -/

/-- A midnight that is read back as it is printed and has a day after it. -/
structure Daybreak (session : Session) (t : Calendar.Instant) : Prop where
  read : session.dates.instant? (t.renderLocal session.zone) = some t
  midnight : session.zone.isMidnight t = true
  next : ∃ next, session.zone.addDays? t 1 = some next

/-- What is asked of the calendar: the zone is regular from the first of some years on,
and the days after the last of them can be told too. -/
structure RegularYears (session : Session) (first last : Int) : Prop where
  regular : session.zone.RegularSince first
  lower : Date.firstYear < first
  upper : last + 1 < Date.lastYear

/-- The date that a text denotes, if any, falls into the years. -/
def FallsInto (session : Session) (first last : Int) (text : String) : Prop :=
  ∀ t ∈ session.dates.instant? text,
    first ≤ (session.zone.reading t).date.year ∧ (session.zone.reading t).date.year ≤ last

instance (session : Session) (first last : Int) : DecidablePred (session.FallsInto first last) :=
  fun text => inferInstanceAs (Decidable (∀ t ∈ session.dates.instant? text, _))

theorem daybreak_of_midnight {first last n : Int} {t : Calendar.Instant}
    (hyears : session.RegularYears first last) (ht : session.zone.reading t = .ofDay n)
    (hfirst : first ≤ (Date.ofDayNumber n).year)
    (hlast : (Date.ofDayNumber n).year ≤ last + 1) : session.Daybreak t := by
  obtain ⟨hregular, hlower, hupper⟩ := hyears
  have hminutes : session.zone.offsetAt t % 60 = 0 := by
    apply hregular.wholeMinutes
    rw [ht, Calendar.Reading.date_ofDay]
    exact hfirst
  obtain ⟨next, hnext, -⟩ := hregular.addDays?_eq_some hlower ht hfirst (by omega)
  refine ⟨?_, ?_, next, hnext⟩
  · exact Calendar.instant?_renderLocal_midnight _ _ ht hminutes (by omega) (by omega)
  · rw [Zone.isMidnight, ht]
    exact Calendar.Reading.isMidnight_ofDay n

/-- Both ends of a day within the years are such midnights. -/
theorem daybreak_of_fallsInto {first last : Int} {t next : Calendar.Instant}
    (hyears : session.RegularYears first last) (hfalls : session.FallsInto first last text)
    (ht : session.dates.instant? text = some t) (hmidnight : session.zone.isMidnight t = true)
    (hnext : session.zone.addDays? t 1 = some next) :
    session.Daybreak t ∧ session.Daybreak next := by
  obtain ⟨hfirst, hlast⟩ := hfalls t ht
  have hday := Calendar.Reading.isMidnight_iff.mp hmidnight
  have hwithin : (Date.ofDayNumber (session.zone.reading t).dayNumber).year < Date.lastYear :=
    Int.lt_of_le_of_lt (Int.le_trans hlast (by omega)) hyears.upper
  obtain ⟨next', hnext', hfollowing⟩ :=
    hyears.regular.addDays?_eq_some hyears.lower hday hfirst hwithin
  cases Option.some.inj (hnext.symm.trans hnext')
  have hsucc := Date.year_ofDayNumber_succ (session.zone.reading t).dayNumber
  exact ⟨daybreak_of_midnight hyears hday hfirst (Int.le_trans hlast (by omega)),
    daybreak_of_midnight hyears hfollowing (Int.le_trans hfirst hsucc.1)
      (Int.le_trans hsucc.2 (Int.add_le_add_right hlast 1))⟩

/-- A comparison with such a midnight is stable. -/
theorem stable_daybreak {span : Span} {t : Calendar.Instant}
    (hop : op = .less ∨ op = .greaterOrEquals)
    (hdefinition : session.definition left = .ok definition)
    (hid : definition.id ≠ CoreField.teamProject) (hday : session.settings.dayPrecision = true)
    (htype : left.type = .date) (ht : session.Daybreak t) :
    session.Stable scope (.condition m op left (session.dateLiteral t span)) := by
  obtain ⟨hread, hmidnight, next, hnext⟩ := ht
  have hlist : op ≠ .oneOf := by
    rintro rfl
    simp at hop
  have hnonempty : t.renderLocal session.zone ≠ "" := by
    intro hempty
    rw [hempty] at hread
    cases hread
  apply stable_condition (fun _ e => .ok e) hlist rfl (settled_string _ _)
  rw [reduceCondition_of_literal hlist hdefinition rfl hnonempty, if_neg hid,
    if_pos (by simp [hday, htype])]
  exact splitDay_of_midnight hop hread hmidnight hnext

/-- The comparisons with the ends of a day are stable. -/
theorem everywhere_stable_of_dayCondition {span : Span} {t next : Calendar.Instant} {e : Expr}
    (hdefinition : session.definition left = .ok definition)
    (hid : definition.id ≠ CoreField.teamProject) (hday : session.settings.dayPrecision = true)
    (htype : left.type = .date) (ht : session.Daybreak t) (hnext : session.Daybreak next)
    (he : dayCondition? m left (session.dateLiteral t span) (session.dateLiteral next span) op =
      some e) : e.Everywhere (session.Stable scope) := by
  apply everywhere_of_dayCondition _ _ he
  · intro connective low high hlow hhigh
    refine hereditary_stable.junction ?_
    simp only [List.mem_cons, List.not_mem_nil, or_false, forall_eq_or_imp, forall_eq]
    exact ⟨⟨rfl, hlow⟩, rfl, hhigh⟩
  · intro mark bound field value hbound hfield hvalue
    obtain rfl | rfl := hfield <;> obtain rfl | rfl := hvalue
    · exact stable_daybreak hbound hdefinition hid hday htype ht
    · exact stable_daybreak hbound hdefinition hid hday htype hnext
    · exact stable_daybreak hbound hdefinition hid hday htype ht
    · exact stable_daybreak hbound hdefinition hid hday htype hnext

/-! ## Clauses -/

variable {first last : Int}

/-- What a condition becomes is stable, if it asks for one value. -/
theorem everywhere_stable_of_reduceCondition {e : Expr}
    (hyears : session.settings.dayPrecision = true → session.RegularYears first last)
    (hop : op ≠ .oneOf) (hleft : left.Resolved session.schema scope)
    (hoperand : right.isOperand = true) (hsettled : session.Settled (scope.withField left) right)
    (hfalls : session.settings.dayPrecision = true → left.type = .date →
      ∀ text, right.literal? = some text → session.FallsInto first last text)
    (hreduce : session.reduceCondition again scope m op left right = .ok e) :
    e.Everywhere (session.Stable scope) := by
  cases reduced_of_reduceCondition hreduce with
  | choice listMark items hlist hright hagain => exact absurd hlist hop
  | emptySearch hsearch htext he =>
      rw [he]
      exact hereditary_stable.truth _ _
  | present id hnot hid hpresent htext he =>
      rw [he]
      exact hereditary_stable.truth _ _
  | project project _ hid htext hproject he =>
      exact everywhere_stable_of_projectCondition hproject he
  | same _ he =>
      subst he
      exact stable_condition again hop hoperand hsettled hreduce
  | day text _ hday htype htext hnonempty he =>
      obtain ⟨definition, hdefinition, -⟩ := definition_of_resolved hleft
      by_cases hid : definition.id = CoreField.teamProject
      · rw [reduceCondition_of_literal hop hdefinition htext hnonempty, if_pos hid] at hreduce
        exact everywhere_stable_of_projectCondition hnonempty hreduce
      · obtain ⟨t, next, ht, hmidnight, hnext, he⟩ := splitDay_eq_ok_dayCondition hleft he
        obtain ⟨hfirst, hsecond⟩ := daybreak_of_fallsInto (hyears hday)
          (hfalls hday htype text htext) ht hmidnight hnext
        exact everywhere_stable_of_dayCondition hdefinition hid hday htype hfirst hsecond he

/-- What is left of a stable leaf is the leaf. -/
theorem everywhere_of_reduce_stable {e s : Expr} (hleaf : e.isLeaf = true)
    (he : session.Stable scope e) (hs : session.reduce again scope e = .ok s) :
    s.Everywhere (session.Stable scope) := by
  cases Except.ok.inj (hs.symm.trans (he.reduce again))
  cases e with
  | junction | not | ever => cases hleaf
  | _ => exact he

/-- The choice that a list stands for becomes stable, if its values are values. -/
theorem everywhere_stable_of_alternatives {items : List Expr} {e : Expr}
    (hyears : session.settings.dayPrecision = true → session.RegularYears first last)
    (hleft : left.Resolved session.schema scope)
    (hitems : ∀ item ∈ items, item.isConst = true ∧ session.Settled (scope.withField left) item)
    (hfalls : session.settings.dayPrecision = true → left.type = .date →
      ∀ item ∈ items, ∀ text, item.literal? = some text → session.FallsInto first last text)
    (hsimplify : Expr.simplifyWith (session.reduce again) scope (alternatives m left items) =
      .ok e) : e.Everywhere (session.Stable scope) := by
  apply everywhere_of_alternatives hereditary_stable (fun _ _ => everywhere_of_reduce_stable)
    hitems _ hsimplify
  intro item hitem mark s hs
  obtain ⟨hconst, hsettled⟩ := hitems item hitem
  exact everywhere_stable_of_reduceCondition hyears (by decide) (resolved_reference hleft)
    (Expr.isOperand_of_isConst hconst) (settled_reference_iff.mpr hsettled)
    (fun hday htype => hfalls hday htype item hitem) hs

end Session

namespace Expr

mutual

/-- A property that can be decided of each expression can be decided of all that are
put together. -/
def decideEverywhere (P : Expr → Prop) [DecidablePred P] : (e : Expr) → Decidable (e.Everywhere P)
  | .junction m connective operands =>
      @instDecidableAnd _ _ (inferInstanceAs (Decidable (P (.junction m connective operands))))
        (decideAllEverywhere P operands)
  | .not m operand =>
      @instDecidableAnd _ _ (inferInstanceAs (Decidable (P (.not m operand))))
        (decideEverywhere P operand)
  | .ever m operand =>
      @instDecidableAnd _ _ (inferInstanceAs (Decidable (P (.ever m operand))))
        (decideEverywhere P operand)
  | .string m value => inferInstanceAs (Decidable (P (.string m value)))
  | .number m value => inferInstanceAs (Decidable (P (.number m value)))
  | .boolean m value => inferInstanceAs (Decidable (P (.boolean m value)))
  | .truth m value => inferInstanceAs (Decidable (P (.truth m value)))
  | .var m v => inferInstanceAs (Decidable (P (.var m v)))
  | .field m f => inferInstanceAs (Decidable (P (.field m f)))
  | .list m items => inferInstanceAs (Decidable (P (.list m items)))
  | .condition m op left right => inferInstanceAs (Decidable (P (.condition m op left right)))
  | .arithmetic m op left right type =>
      inferInstanceAs (Decidable (P (.arithmetic m op left right type)))
termination_by structural e => e

def decideAllEverywhere (P : Expr → Prop) [DecidablePred P] :
    (es : List Expr) → Decidable (AllEverywhere P es)
  | [] => isTrue trivial
  | e :: es => @instDecidableAnd _ _ (decideEverywhere P e) (decideAllEverywhere P es)
termination_by structural es => es

end

instance (P : Expr → Prop) [DecidablePred P] : DecidablePred (Everywhere P) :=
  decideEverywhere P

end Expr

def Expr.literals : Expr → List String
  | .list _ items => items.filterMap literal?
  | e => e.literal?.toList

theorem Expr.mem_literals {e : Expr} {text : String} (htext : e.literal? = some text) :
    text ∈ e.literals := by
  cases e with
  | list m items => cases htext
  | _ => exact Option.mem_toList.mpr htext

namespace Session

variable {session : Session} {again : Reduction} {scope : Scope} {first last : Int}

/-- The dates that a date field is compared with, once macros are inlined and
arithmetic is carried out, fall into the years. -/
def DatesFallInto (session : Session) (scope : Scope) (first last : Int) : Expr → Prop
  | .condition _ _ left right => left.type = .date →
      ∀ value ∈ session.operandValue? (scope.withField left) right,
        ∀ text ∈ value.literals, session.FallsInto first last text
  | _ => True

instance (session : Session) (scope : Scope) (first last : Int) :
    DecidablePred (session.DatesFallInto scope first last)
  | .condition _ _ left right =>
      inferInstanceAs (Decidable (left.type = .date →
        ∀ value ∈ session.operandValue? (scope.withField left) right, _))
  | .string .. | .number .. | .boolean .. | .truth .. | .var .. | .field .. | .list ..
  | .arithmetic .. | .junction .. | .not .. | .ever .. => isTrue trivial

/-- Whatever a condition is simplified to is stable. -/
theorem yields_stable_condition {m : Mark} {op : Comparison} {left : FieldRef} {right : Expr}
    (hyears : session.settings.dayPrecision = true → session.RegularYears first last)
    (hleft : left.Resolved session.schema scope) (hoperand : right.isOperand = true)
    (hdates : session.settings.dayPrecision = true →
      session.DatesFallInto scope first last (.condition m op left right)) :
    session.Yields (Expr.simplifyWith (session.reduce again)) scope (session.Stable scope)
      (.condition m op left right) := by
  intro _ s hs
  obtain ⟨value, hvalue, hs⟩ := Expr.simplifyWith_condition hs
  obtain ⟨hvalue, hoperand, hsettled⟩ := operandValue?_of_simplifyWith hoperand hvalue
  by_cases hop : op = .oneOf
  · subst hop
    obtain ⟨listMark, items, rfl, hagain⟩ := reduceCondition_oneOf hs
    have hconsts := Expr.allConst_iff.mp hoperand
    have hvalues := settled_list_iff.mp hsettled
    apply everywhere_stable_of_alternatives hyears hleft
      (fun item hitem => ⟨hconsts item hitem, hvalues item hitem⟩) _ hagain
    intro hday htype item hitem text htext
    exact hdates hday htype _ hvalue text (List.mem_filterMap.mpr ⟨item, hitem, htext⟩)
  · apply everywhere_stable_of_reduceCondition hyears hop hleft hoperand hsettled _ hs
    intro hday htype text htext
    exact hdates hday htype value hvalue text (Expr.mem_literals htext)

theorem yields_of_stable {e : Expr} (he : session.Stable scope e) :
    session.Yields again scope (session.Stable scope) e := by
  intro hleaf s hs
  cases Except.ok.inj (hs.symm.trans (he.simplify again))
  exact everywhere_of_reduce_stable hleaf he (he.reduce again)

/-- Whatever the leaves of a resolved clause become is stable. -/
theorem everywhere_yields_of_resolved (e : Expr) (hresolved : e.Resolved session.schema scope)
    (htype : e.dataType = .bool)
    (hyears : session.settings.dayPrecision = true → session.RegularYears first last)
    (hdates : session.settings.dayPrecision = true →
      e.Everywhere (session.DatesFallInto scope first last)) :
    e.Everywhere (session.Yields (Expr.simplifyWith (session.reduce again)) scope
      (session.Stable scope)) := by
  have hparts := Expr.everywhere_of_resolved (fun _ => And.intro) e hresolved ⟨hresolved, htype⟩
  refine (hparts.and (Expr.everywhere_imp hdates)).imp ?_
  rintro e ⟨⟨hresolved, htype⟩, hdates⟩
  have hpart := clausePart_of_resolved hresolved htype
  cases e with
  | junction | not | ever => exact nofun
  | condition m op left right =>
      obtain ⟨⟨hleft, hright, hcheck⟩, -⟩ := hresolved
      exact yields_stable_condition hyears hleft (isOperand_of_checkRight hright hcheck) hdates
  | _ => exact yields_of_stable (stable_of_settled hpart.2.1 hpart.2.2.1)

/-- A simplified clause is simplified to itself. -/
theorem simplify_eq_self {e s : Expr} (hresolved : e.Resolved session.schema scope)
    (htype : e.dataType = .bool)
    (hyears : session.settings.dayPrecision = true → session.RegularYears first last)
    (hdates : session.settings.dayPrecision = true →
      e.Everywhere (session.DatesFallInto scope first last))
    (hsimplify : session.simplify scope e = .ok s) : session.simplify scope s = .ok s := by
  have hstable : s.Everywhere (session.Stable scope) :=
    everywhere_of_yields hereditary_stable (fun _ _ => everywhere_of_reduce_stable)
      (everywhere_yields_of_resolved e hresolved htype hyears hdates)
      (everywhere_admits stable_ever e) hsimplify
  exact hstable.self.simplify _

end Session

/-- Simplifying the clause of a resolved query again leaves it as it is, down to places
and parentheses.  With day precision this asks for a zone in which, from some year on,
every date has a midnight and offsets are whole minutes, and for dates from that year
on and not at the end of the calendar. -/
theorem Session.simplify_simplify {session : Session} {query bound : Select}
    {clause simplified : Expr} {first last : Int}
    (hbind : session.bind query = .ok bound) (hclause : bound.filter = some clause)
    (hfirst : Date.firstYear < first) (hlast : last + 1 < Date.lastYear)
    (hzone : session.settings.dayPrecision = true → session.zone.RegularSince first)
    (hdates : session.settings.dayPrecision = true →
      clause.Everywhere (session.DatesFallInto { table := bound.table } first last))
    (hsimplify : session.simplify { table := bound.table } clause = .ok simplified) :
    session.simplify { table := bound.table } simplified = .ok simplified := by
  have hresolved := Select.resolved_of_bind hbind
  obtain ⟨hfilter, hboolean⟩ := hresolved.filter clause hclause
  apply simplify_eq_self hfilter (Expr.ensureBoolean_eq_ok_iff.mp hboolean) _ hdates
    hsimplify
  intro hday
  exact ⟨hzone hday, hfirst, hlast⟩

/-- The core fields, and the date on which a work item was created. -/
def Catalog.dated : Catalog :=
  let created : FieldDefinition :=
    { id := 32, name := "Created Date", type := .dateTime, referenceName := "System.CreatedDate" }
  { Catalog.core with fields := ("System.CreatedDate", created) :: Catalog.core.fields }

/-- Days behind UTC: a day that is asked for, a list with the last day of a year and
today, and a day that is excluded. -/
theorem Session.simplify_simplify_days :
    ∃ session query bound clause simplified,
      Session.start Zone.ofName? .dated { dayPrecision := true, timeZone := "Etc/GMT+5" } []
        ⟨⟨0, 0⟩⟩ = .ok session ∧
      Select.parse ("select [System.Id] from WorkItems where " ++
        "[Created Date] > '2024-02-29' and not [Created Date] in ('9998-12-31', @today) " ++
        "or [Created Date] <> '0001-01-01'") = .ok query ∧
      session.bind query = .ok bound ∧ bound.filter = some clause ∧
      session.zone.RegularSince 1 ∧
      clause.Everywhere (session.DatesFallInto { table := bound.table } 1 9998) ∧
      session.simplify { table := bound.table } clause = .ok simplified ∧
      session.simplify { table := bound.table } simplified = .ok simplified := by
  have hcompiles : (do
      let session ← (Session.start Zone.ofName? .dated
        { dayPrecision := true, timeZone := "Etc/GMT+5" } [] ⟨⟨0, 0⟩⟩).toOption
      let query ← (Select.parse ("select [System.Id] from WorkItems where " ++
        "[Created Date] > '2024-02-29' and not [Created Date] in ('9998-12-31', @today) " ++
        "or [Created Date] <> '0001-01-01'")).toOption
      let bound ← (session.bind query).toOption
      let clause ← bound.filter
      guard (clause.Everywhere (session.DatesFallInto { table := bound.table } 1 9998))
      (session.simplify { table := bound.table } clause).toOption).isSome = true := by
    decide +kernel
  obtain ⟨simplified, hcompiles⟩ := Option.isSome_iff_exists.mp hcompiles
  obtain ⟨session, hsession, hcompiles⟩ := toOption_bind_eq_some_iff.mp hcompiles
  obtain ⟨query, hquery, hcompiles⟩ := toOption_bind_eq_some_iff.mp hcompiles
  obtain ⟨bound, hbound, hcompiles⟩ := toOption_bind_eq_some_iff.mp hcompiles
  obtain ⟨clause, hclause, hcompiles⟩ := Option.bind_eq_some_iff.mp hcompiles
  obtain ⟨_, hguard, hcompiles⟩ := Option.bind_eq_some_iff.mp hcompiles
  have hdates := guard_eq_some_iff.mp hguard
  have hsimplify := toOption_eq_some_iff.mp hcompiles
  have hzone : session.zone.RegularSince 1 := by
    obtain ⟨zone, hknown, hstart⟩ := bind_eq_ok_iff.mp hsession
    cases hstart
    have hfixed : Settings.zone Zone.ofName?
        { dayPrecision := true, timeZone := "Etc/GMT+5" } = .ok Zone.fiveBehind := rfl
    cases hfixed.symm.trans hknown
    exact Zone.regularSince_fixed (by decide) (by decide) 1
  exact ⟨session, query, bound, clause, simplified, hsession, hquery, hbound, hclause, hzone,
    hdates, hsimplify,
    simplify_simplify hbound hclause (by decide) (by decide) (fun _ => hzone)
      (fun _ => hdates) hsimplify⟩

end TrackerQuery

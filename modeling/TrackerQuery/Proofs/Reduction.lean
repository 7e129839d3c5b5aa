import TrackerQuery.Proofs.Resolved
import TrackerQuery.Session.Reduce

/-!
# What reduction does to a condition

A session has six ways to reduce a condition.  `Session.Reduced` lists them
with everything that is known in each, so that no later proof takes the
reduction apart again.
-/

namespace TrackerQuery

theorem DateStyle.instant_eq_ok_some_iff {dates : DateStyle} {text : String}
    {t : Calendar.Instant} : dates.instant text = .ok (some t) ↔ dates.instant? text = some t := by
  unfold instant instant? Calendar.instant?
  cases Calendar.instant dates.locale dates.zone text with
  | error e => constructor <;> intro h <;> cases h
  | ok found => constructor <;> intro h <;> cases h <;> rfl

namespace Session

open Error (ensure)

/-- The ways in which a condition is reduced. -/
inductive Reduced (session : Session) (again : Reduction) (scope : Scope) (m : Mark)
    (op : Comparison) (left : FieldRef) (right : Expr) (e : Expr) : Prop
  /-- A list is a choice between its values. -/
  | choice (listMark : Mark) (items : List Expr) (hop : op = .oneOf)
      (hright : right = .list listMark items)
      (hagain : again scope (alternatives m left items) = .ok e)
  /-- Every text contains the empty one. -/
  | emptySearch (hop : op.isSearch = true) (htext : right.literal? = some "")
      (he : e = .truth { span := m.span } true)
  | project (project : String) (hop : op ≠ .oneOf) (hid : left.id = some CoreField.teamProject)
      (htext : right.literal? = some project) (hproject : project ≠ "")
      (he : session.projectCondition scope m op left project right.span = .ok e)
  | day (text : String) (hop : op ≠ .oneOf) (hday : session.settings.dayPrecision = true)
      (htype : left.type = .date) (htext : right.literal? = some text) (hnonempty : text ≠ "")
      (he : session.splitDay scope m op left text right.span = .ok e)
  | present (id : Int) (hop : op = .notEquals) (hid : left.id = some id)
      (hpresent : CoreField.alwaysHasValue id = true) (htext : right.literal? = some "")
      (he : e = .truth { span := m.span } true)
  | same (hop : op ≠ .oneOf) (he : e = .condition m op left right)

theorem definition_eq_ok {session : Session} {field : FieldRef} {definition : FieldDefinition}
    (hdefinition : session.definition field = .ok definition) :
    field.id = some definition.id ∧
      session.catalog.fieldById? definition.id = some definition := by
  unfold Session.definition definition? at hdefinition
  cases hid : field.id with
  | none => simp [hid] at hdefinition
  | some id =>
      cases hfound : session.catalog.fieldById? id with
      | none => simp [hid, hfound] at hdefinition
      | some found =>
          simp only [hid, Option.bind_some, hfound, Except.ok.injEq] at hdefinition
          subst hdefinition
          have hsame : found.id = id := by
            simpa using List.find?_some hfound
          rw [hsame]
          exact ⟨rfl, hfound⟩

/-- A condition is reduced in one of these ways. -/
theorem reduced_of_reduceCondition {session : Session} {again : Reduction} {scope : Scope}
    {m : Mark} {op : Comparison} {left : FieldRef} {right e : Expr}
    (hreduce : session.reduceCondition again scope m op left right = .ok e) :
    Reduced session again scope m op left right e := by
  unfold reduceCondition at hreduce
  split at hreduce
  · rename_i hop
    split at hreduce
    · exact .choice _ _ hop rfl hreduce
    · cases hreduce
  · rename_i hop
    split at hreduce
    · rename_i hsearch
      simp only [Bool.and_eq_true, beq_iff_eq] at hsearch
      exact .emptySearch hsearch.1 hsearch.2 (pure_eq_ok_iff.mp hreduce).symm
    · obtain ⟨definition, hdefinition, hreduce⟩ := bind_eq_ok_iff.mp hreduce
      obtain ⟨hid, -⟩ := definition_eq_ok hdefinition
      dsimp only at hreduce
      split at hreduce
      · rename_i text htext
        obtain ⟨htext, hnonempty⟩ := Option.filter_eq_some_iff.mp htext
        have hnonempty : text ≠ "" := by simpa using hnonempty
        split at hreduce
        · rename_i hproject
          exact .project text hop (by rw [hid, hproject]) htext hnonempty hreduce
        · split at hreduce
          · rename_i hday
            simp only [Bool.and_eq_true, beq_iff_eq] at hday
            exact .day text hop hday.1 hday.2 htext hnonempty hreduce
          · exact .same hop (pure_eq_ok_iff.mp hreduce).symm
      · split at hreduce
        · rename_i hpresent
          simp only [Bool.and_eq_true, beq_iff_eq] at hpresent
          exact .present definition.id hpresent.1.2 hid hpresent.1.1 hpresent.2
            (pure_eq_ok_iff.mp hreduce).symm
        · exact .same hop (pure_eq_ok_iff.mp hreduce).symm

/-- An `in` condition stands over a list, whose values are chosen between. -/
theorem reduceCondition_oneOf {session : Session} {again : Reduction} {scope : Scope} {m : Mark}
    {left : FieldRef} {right e : Expr}
    (hreduce : session.reduceCondition again scope m .oneOf left right = .ok e) :
    ∃ listMark items, right = .list listMark items ∧
      again scope (alternatives m left items) = .ok e := by
  cases reduced_of_reduceCondition hreduce with
  | choice listMark items hop hright hagain => exact ⟨listMark, items, hright, hagain⟩
  | emptySearch hop => cases hop
  | present _ hop => cases hop
  | project _ hop | day _ hop | same hop => exact absurd rfl hop

/-! ## What the parts of a reduction make -/

variable {session : Session} {scope : Scope}

/-- A macro gives way to a literal or stays. -/
theorem inlineVariable_cases (m : Mark) (v : Variable) :
    (∃ mark text, session.inlineVariable m v = .string mark text) ∨
      (∃ mark text, session.inlineVariable m v = .number mark text) ∨
      session.inlineVariable m v = .var m v := by
  unfold inlineVariable
  split
  · exact .inr (.inr rfl)
  · split
    · exact .inl ⟨_, _, rfl⟩
    · exact .inl ⟨_, _, rfl⟩
    · exact .inr (.inl ⟨_, _, rfl⟩)
    · split
      · exact .inl ⟨_, _, rfl⟩
      · split
        · exact .inl ⟨_, _, rfl⟩
        · exact .inr (.inr rfl)

/-- Numbers are added to a finite one. -/
theorem foldNumbers_eq_ok {left : Expr} {factor : Float} {text : String}
    {span textSpan : Span} {e : Expr}
    (hfold : foldNumbers left factor text span textSpan = .ok e) :
    ∃ place, ∃ sum : { x : Float // x.isFinite = true },
      e = .number { span := place } (Decimal.renderFloat sum) := by
  unfold foldNumbers at hfold
  dsimp only at hfold
  split at hfold
  · cases hfold
  · obtain ⟨_, -, hfold⟩ := bind_eq_ok_iff.mp hfold
    obtain ⟨_, hsum, hfold⟩ := bind_eq_ok_iff.mp hfold
    exact ⟨_, ⟨_, Error.ensure_eq_ok_iff.mp hsum⟩, (pure_eq_ok_iff.mp hfold).symm⟩

theorem foldDate_eq_ok {left : Expr} {op : Arithmetic} {factor : Float} {text : String}
    {span textSpan : Span} {e : Expr}
    (hfold : session.foldDate left op factor text span textSpan = .ok e) :
    ∃ place date, e = .string { span := place } date := by
  unfold foldDate at hfold
  split at hfold
  · cases hfold
  · obtain ⟨_, -, hfold⟩ := bind_eq_ok_iff.mp hfold
    obtain ⟨_, -, hfold⟩ := bind_eq_ok_iff.mp hfold
    split at hfold
    · exact ⟨_, _, (pure_eq_ok_iff.mp hfold).symm⟩
    · cases hfold

/-- Arithmetic is carried out to a literal, or stays under a field that is
neither a number nor a date. -/
theorem foldArithmetic_eq_ok {m : Mark} {op : Arithmetic} {left right : Expr}
    {type : DataType} {e : Expr}
    (hfold : session.foldArithmetic scope m op left right type = .ok e) :
    (∃ place text, e = .string { span := place } text) ∨
      (∃ place, ∃ sum : { x : Float // x.isFinite = true },
        e = .number { span := place } (Decimal.renderFloat sum)) ∨
      e = .arithmetic m op left right type := by
  unfold foldArithmetic at hfold
  split at hfold
  · rename_i rightMark text
    cases op with
    | missing => cases hfold
    | add | subtract =>
        dsimp only [pure_bind] at hfold
        split at hfold
        · exact .inr (.inl (foldNumbers_eq_ok hfold))
        · exact .inr (.inl (foldNumbers_eq_ok hfold))
        · exact .inl (foldDate_eq_ok hfold)
        · exact .inr (.inr (pure_eq_ok_iff.mp hfold).symm)
  · cases hfold

/-- The area path of the work item that `left` is a field of. -/
def areaField (session : Session) (scope : Scope) (left : FieldRef) :
    Except Error FieldRef := do
  match session.catalog.fieldById? CoreField.areaPath with
  | none => .error (.located .fieldDoesNotExist left.span)
  | some area =>
      (FieldRef.bind session.schema scope
        { name := area.referenceName, qualifier := left.qualifier, span := left.span }).toExcept

theorem instant_eq_ok_iff {text : String} {span : Span} {t : Calendar.Instant} :
    session.instant text span = .ok t ↔ session.dates.instant? text = some t := by
  rw [← DateStyle.instant_eq_ok_some_iff, instant, bind_eq_ok_iff]
  constructor
  · rintro ⟨_ | found, hfound, hread⟩
    · cases hread
    · rwa [pure_eq_ok_iff.mp hread] at hfound
  · exact fun hfound => ⟨some t, hfound, rfl⟩

/-- A team project becomes a condition on its area, negated for `<>`. -/
theorem projectCondition_eq_ok {m : Mark} {op : Comparison} {left : FieldRef}
    {project : String} {span : Span} {e : Expr}
    (hproject : session.projectCondition scope m op left project span = .ok e) :
    e.Resolved session.schema scope ∧ ∃ area, session.areaField scope left = .ok area ∧
      e = if op = .notEquals then
          .not m (.condition { span := m.span } .under area (.string { span } project))
        else .condition m .under area (.string { span } project) := by
  unfold projectCondition at hproject
  split at hproject
  · cases hproject
  · rename_i definition hdefinition
    refine ⟨Expr.resolved_of_bind hproject, ?_⟩
    obtain ⟨hparts, -⟩ := Attempt.check_eq_ok_iff.mp hproject
    simp only [areaField, hdefinition]
    split at hparts
    · rename_i hop
      obtain ⟨operand, hoperand, rfl⟩ := Attempt.map_eq_ok_iff.mp hparts
      obtain ⟨hchecked, -⟩ := Attempt.check_eq_ok_iff.mp hoperand
      obtain ⟨hcondition, -⟩ := Attempt.check_eq_ok_iff.mp hchecked
      obtain ⟨area, right, hleft, hright, -, -, rfl⟩ := Expr.bindParts_condition hcondition
      cases hright
      exact ⟨area, hleft, by rw [if_pos hop]; rfl⟩
    · rename_i hop
      obtain ⟨area, right, hleft, hright, -, -, rfl⟩ := Expr.bindParts_condition hparts
      cases hright
      exact ⟨area, hleft, by rw [if_neg hop]; rfl⟩

/-- A comparison with a day becomes a combination that is resolved anew, or
one comparison of the same field. -/
theorem splitDay_eq_ok {m : Mark} {op : Comparison} {left : FieldRef} {text : String}
    {span : Span} {e : Expr} (hsplit : session.splitDay scope m op left text span = .ok e) :
    ∃ c, e = c.withMark m ∧
      (c.Resolved session.schema scope ∨ ∃ op' right, c = Expr.compare op' left right) := by
  unfold splitDay at hsplit
  obtain ⟨t, -, hsplit⟩ := bind_eq_ok_iff.mp hsplit
  obtain ⟨_, -, hsplit⟩ := bind_eq_ok_iff.mp hsplit
  split at hsplit
  · cases hsplit
  · dsimp only at hsplit
    split at hsplit
    all_goals
      obtain ⟨c, hc, hmark⟩ := bind_eq_ok_iff.mp hsplit
      refine ⟨c, (pure_eq_ok_iff.mp hmark).symm, ?_⟩
    · exact .inl (Expr.resolved_of_bind hc)
    · exact .inl (Expr.resolved_of_bind hc)
    · exact .inr ⟨_, _, (pure_eq_ok_iff.mp hc).symm⟩
    · exact .inr ⟨_, _, (pure_eq_ok_iff.mp hc).symm⟩
    · exact .inr ⟨_, _, (pure_eq_ok_iff.mp hc).symm⟩
    · exact .inr ⟨_, _, (pure_eq_ok_iff.mp hc).symm⟩
    · cases hc

end Session

end TrackerQuery

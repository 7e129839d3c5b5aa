import TrackerQuery.Proofs.BoundAgain
import TrackerQuery.Proofs.DayOrder

/-!
# Comparisons by the day compare dates

With day precision a date field is compared with the ends of a day instead of the
instant that a date denotes.  For every instant the comparison comes out as the same
comparison of its local date with that day, wherever days are whole.
-/

namespace TrackerQuery

open Calendar (Date Instant Reading Zone)

/-- The six comparisons by an order. -/
def Comparison.Relates {α : Type} [LT α] [LE α] : Comparison → α → α → Prop
  | .equals, a, b => a = b
  | .notEquals, a, b => a ≠ b
  | .less, a, b => a < b
  | .greater, a, b => b < a
  | .lessOrEquals, a, b => a ≤ b
  | .greaterOrEquals, a, b => b ≤ a
  | _, _, _ => False

/-- Dates are compared as their day numbers. -/
theorem Comparison.relates_ofDayNumber_iff {op : Comparison} {m n : Int} :
    op.Relates (Date.ofDayNumber m) (Date.ofDayNumber n) ↔ op.Relates m n := by
  cases op with
  | equals => exact Date.ofDayNumber_inj
  | notEquals => exact not_congr Date.ofDayNumber_inj
  | less | greater => exact Date.ofDayNumber_lt_iff
  | lessOrEquals | greaterOrEquals => exact Date.ofDayNumber_le_iff
  | _ => exact Iff.rfl

namespace Session

variable {session : Session} {scope : Scope} {m : Mark} {op : Comparison} {left : FieldRef}
  {text : String} {span : Span} {t next : Instant}

/-- Conditions on a field whose value is an instant: they compare it with the instant that
the literal on the right denotes. -/
def comparing (session : Session) (field : FieldRef) : Interpretation Instant where
  condition atom x := atom.field = field.id ∧ atom.qualifier = field.qualifier ∧
    ∃ t, (atom.operand.bind Expr.literal?).bind session.dates.instant? = some t ∧ atom.op.Relates x t
  value _ _ := False

/-! ## What splitting a day makes -/

/-- A comparison with a day is split if both ends of the day can be read as they are
printed. -/
theorem splitDay_of_dayCondition {e : Expr} (hleft : left.Resolved session.schema scope)
    (htype : left.type = .date) (ht : session.dates.instant? text = some t)
    (hmidnight : session.zone.isMidnight t = true)
    (hnext : session.zone.addDays? t 1 = some next)
    (hread : (session.dates.instant? (t.renderLocal session.zone)).isSome = true)
    (hreadNext : (session.dates.instant? (next.renderLocal session.zone)).isSome = true)
    (he : dayCondition? m left (session.dateLiteral t span) (session.dateLiteral next span) op =
      some e) : session.splitDay scope m op left text span = .ok e := by
  have hruled : e.Everywhere (session.Ruled scope True) :=
    everywhere_ruled_of_dayCondition hleft htype hread hreadNext he
  have hresolved := resolved_of_conforms e hruled
    (hruled.imp fun _ => conforms_of_ruled trivial)
  have hjoin : ∀ {connective : Connective} {operands : List Expr},
      (Expr.junction m connective operands).Resolved session.schema scope →
        ((Expr.join connective operands).bind session.schema scope).toExcept =
          .ok (.join connective operands) := by
    intro connective operands hresolved
    have hjoined : (Expr.join connective operands).Resolved session.schema scope :=
      ⟨hresolved.1, rfl⟩
    exact (Expr.resolved_iff session.schema_canonical).mp hjoined
  unfold splitDay
  apply bind_eq_ok_iff.mpr
  refine ⟨t, instant_eq_ok_iff.mpr ht, check_bind_eq_ok_iff.mpr ⟨Error.ensure_eq_ok_iff.mpr hmidnight, ?_⟩⟩
  simp only [hnext]
  cases op with
  | equals | notEquals =>
      cases he
      apply bind_eq_ok_iff.mpr
      exact ⟨_, hjoin hresolved, rfl⟩
  | less | greaterOrEquals | greater | lessOrEquals =>
      cases he
      rfl
  | _ => cases he

theorem holds_bound_iff {field : FieldRef} {mark : Mark}
    (hread : session.dates.instant? (t.renderLocal session.zone) = some t)
    (hid : field.id = left.id) (hqualifier : field.qualifier = left.qualifier) (x : Instant) :
    (Expr.condition mark op field (session.dateLiteral t span)).Holds session scope
      (session.comparing left) x ↔ op.Relates x t := by
  have hdenotes : ((session.atom scope op field (session.dateLiteral t span)).operand.bind
      Expr.literal?).bind session.dates.instant? = some t := by
    show (some (t.renderLocal session.zone)).bind session.dates.instant? = some t
    rw [Option.bind_some, hread]
  simp only [Expr.Holds, comparing, hdenotes]
  simp [atom, hid, hqualifier]

/-- A comparison that is split by the day says of an instant what it says of its day, if
the days from this one and from the next one on begin at the instants it is split at. -/
theorem holds_dayCondition_iff {e : Expr} {n day : Int} {x : Instant}
    (hread : session.dates.instant? (t.renderLocal session.zone) = some t)
    (hreadNext : session.dates.instant? (next.renderLocal session.zone) = some next)
    (ht : n ≤ day ↔ t ≤ x) (hnext : n + 1 ≤ day ↔ next ≤ x)
    (he : dayCondition? m left (session.dateLiteral t span) (session.dateLiteral next span) op =
      some e) :
    e.Holds session scope (session.comparing left) x ↔ op.Relates day n := by
  have hid : left.reference.id = left.id := rfl
  cases op with
  | equals =>
      cases he
      rw [Expr.holds_and_iff]
      simp only [List.mem_cons, List.not_mem_nil, or_false, forall_eq_or_imp, forall_eq,
        Expr.compare]
      rw [holds_bound_iff hread hid rfl, holds_bound_iff hreadNext hid rfl]
      simp only [Comparison.Relates, Instant.lt_iff_not_le, ← ht, ← hnext]
      omega
  | notEquals =>
      cases he
      rw [Expr.holds_or_iff]
      simp only [List.mem_cons, List.not_mem_nil, or_false, exists_eq_or_imp, exists_eq_left,
        Expr.compare]
      rw [holds_bound_iff hread hid rfl, holds_bound_iff hreadNext hid rfl]
      simp only [Comparison.Relates, Instant.lt_iff_not_le, ← ht, ← hnext]
      omega
  | less | greaterOrEquals =>
      cases he
      rw [holds_bound_iff hread rfl rfl]
      simp only [Comparison.Relates, Instant.lt_iff_not_le, ← ht, Int.not_le]
  | greater | lessOrEquals =>
      cases he
      rw [holds_bound_iff hreadNext rfl rfl]
      simp only [Comparison.Relates, Instant.lt_iff_not_le, ← hnext]
      omega
  | _ => cases he

/-! ## Days and their dates -/

/-- The day after the one that begins at an instant begins at the instant a day later. -/
theorem le_dayNumber_next_iff {n : Int} (ht : session.zone.reading t = .ofDay n)
    (hday : session.zone.WholeDay n) (hafter : session.zone.WholeDay (n + 1))
    (hfirst : Date.firstYear < (Date.ofDayNumber (n + 1)).year)
    (hlast : (Date.ofDayNumber (n + 1)).year ≤ Date.lastYear) :
    ∃ next, session.zone.addDays? t 1 = some next ∧
      session.zone.reading next = .ofDay (n + 1) ∧
      ∀ x, n + 1 ≤ (session.zone.reading x).dayNumber ↔ next ≤ x := by
  obtain ⟨shown, hshown, -⟩ := hafter.start
  obtain ⟨next, hadded, hearliest⟩ := Zone.addDays?_eq_earliest? ht hshown hfirst hlast
  have hreading := Zone.reading_of_earliest? hearliest
  refine ⟨next, hadded, hreading, ?_⟩
  apply Zone.le_dayNumber_iff _ hafter hreading fun x => hafter.earliest?_le hearliest
  rwa [Int.add_sub_cancel]

/-- The first instant of a whole day is its midnight. -/
theorem reading_of_first (hday : session.zone.WholeDay (session.zone.reading t).dayNumber)
    (hfirst : ∀ x, (session.zone.reading x).date = (session.zone.reading t).date → t ≤ x) :
    session.zone.reading t = .ofDay (session.zone.reading t).dayNumber := by
  obtain ⟨start, hstart, hleast⟩ := hday.start
  have hdate : (session.zone.reading start).date = (session.zone.reading t).date := by
    rw [hstart, Reading.date_ofDay, Reading.date]
  have hsame : t = start := Instant.le_antisymm (hfirst start hdate) (hleast t rfl)
  rw [hsame] at hstart ⊢
  rw [hstart, Reading.dayNumber_ofDay]

/-- A comparison with the first instant of a day is split, and what it is split into
compares dates. -/
theorem holds_splitDay_iff (hleft : left.Resolved session.schema scope)
    (htype : left.type = .date)
    (hop : op ∈ [Comparison.equals, .notEquals, .less, .greater, .lessOrEquals, .greaterOrEquals])
    (htext : session.dates.instant? text = some t)
    (hfirst : ∀ x, (session.zone.reading x).date = (session.zone.reading t).date → t ≤ x)
    (hlow : Date.firstYear < (session.zone.reading t).date.year)
    (hhigh : (session.zone.reading t).date.year < Date.lastYear)
    (hdays : ∀ n, (session.zone.reading t).dayNumber - 1 ≤ n →
      n ≤ (session.zone.reading t).dayNumber + 1 → session.zone.WholeDay n) :
    ∃ e, session.splitDay scope m op left text span = .ok e ∧
      ∀ x, e.Holds session scope (session.comparing left) x ↔
        op.Relates (session.zone.reading x).date (session.zone.reading t).date := by
  generalize hn : (session.zone.reading t).dayNumber = n at hdays
  have hday : session.zone.WholeDay n := hdays n (by omega) (by omega)
  have ht : session.zone.reading t = .ofDay n := by
    rw [← hn] at hday ⊢
    exact reading_of_first hday hfirst
  have hyear := Date.year_ofDayNumber_succ n
  rw [ht, Reading.date_ofDay] at hlow hhigh
  have hafter : session.zone.WholeDay (n + 1) := hdays (n + 1) (by omega) (by omega)
  obtain ⟨next, hadded, hnext, hnextIff⟩ :=
    le_dayNumber_next_iff ht hday hafter (by omega) (by omega)
  have hmidnight : session.zone.isMidnight t = true := by
    rw [Zone.isMidnight, ht]
    exact Reading.isMidnight_ofDay n
  have hread : session.dates.instant? (t.renderLocal session.zone) = some t :=
    Calendar.instant?_renderLocal_midnight _ _ ht (hday.wholeMinutes t hn) (by omega) (by omega)
  have hreadNext : session.dates.instant? (next.renderLocal session.zone) = some next :=
    Calendar.instant?_renderLocal_midnight _ _ hnext
      (hafter.wholeMinutes next (by rw [hnext, Reading.dayNumber_ofDay])) (by omega) (by omega)
  have hsplit : ∃ e, dayCondition? m left (session.dateLiteral t span)
      (session.dateLiteral next span) op = some e := by
    simp only [List.mem_cons, List.not_mem_nil, or_false] at hop
    obtain rfl | rfl | rfl | rfl | rfl | rfl := hop <;> exact ⟨_, rfl⟩
  obtain ⟨e, he⟩ := hsplit
  refine ⟨e, ?_, fun x => ?_⟩
  · exact splitDay_of_dayCondition hleft htype htext hmidnight hadded
      (Option.isSome_iff_exists.mpr ⟨t, hread⟩) (Option.isSome_iff_exists.mpr ⟨next, hreadNext⟩) he
  · have hfrom := Zone.le_dayNumber_iff (hdays (n - 1) (by omega) (by omega)) hday ht
      (fun x hx => hfirst x (by rw [Reading.date, hx, ht, Reading.date_ofDay])) x
    rw [holds_dayCondition_iff hread hreadNext hfrom (hnextIff x) he, ht, Reading.date_ofDay,
      Reading.date]
    exact Comparison.relates_ofDayNumber_iff.symm

/-! ## The whole comparison -/

/-- With day precision a comparison of a date field with a literal is split by the day. -/
theorem simplify_eq_splitDay {right : Expr} (hday : session.settings.dayPrecision = true)
    (hleft : left.Resolved session.schema scope) (htype : left.type = .date)
    (hid : left.id ≠ some CoreField.teamProject) (hop : op ≠ .oneOf)
    (htext : right.literal? = some text) (hnonempty : text ≠ "") :
    session.simplify scope (.condition m op left right) =
      session.splitDay scope m op left text right.span := by
  obtain ⟨definition, hdefinition, -⟩ := definition_of_resolved hleft
  obtain ⟨hdefined, -⟩ := definition_eq_ok hdefinition
  have hproject : definition.id ≠ CoreField.teamProject := by
    rintro heq
    exact hid (hdefined.trans (congrArg some heq))
  have hright : ∀ again, Expr.simplifyWith (session.reduce again) (scope.withField left) right =
      .ok right := by
    intro again
    cases right <;> first | rfl | cases htext
  rw [simplify, Expr.simplifyRounds, Expr.simplifyWith, hright]
  show session.reduceCondition _ scope m op left right = _
  rw [reduceCondition_of_literal hop hdefinition htext hnonempty, if_neg hproject,
    if_pos (by simp [hday, htype])]

theorem splitDay_of_time (htext : session.dates.instant? text = some t)
    (htime : session.zone.isMidnight t = false) :
    session.splitDay scope m op left text span = .error (.located .nonZeroTime m.span) := by
  rw [splitDay, instant_eq_ok_iff.mpr htext]
  show (Error.ensure (session.zone.isMidnight t) _ >>= _) = _
  rw [htime]
  rfl

/-- With day precision a date field is compared by the day.  A date that denotes a time of
day other than midnight is refused.  One that denotes the first instant of a day is
compared with the ends of the day, and for every instant the outcome is that of the same
comparison between its date and the day, if the day and those next to it are whole. -/
theorem simplify_compares_dates (hday : session.settings.dayPrecision = true)
    (hleft : left.Resolved session.schema scope) (htype : left.type = .date)
    (hop : op ∈ [Comparison.equals, .notEquals, .less, .greater, .lessOrEquals, .greaterOrEquals])
    (ht : session.dates.instant? text = some t) (m : Mark) (span : Span) :
    (∀ right, left.id ≠ some CoreField.teamProject → right.literal? = some text →
      session.simplify scope (.condition m op left right) =
        session.splitDay scope m op left text right.span) ∧
      ((session.zone.reading t).secondOfDay ≠ 0 ∨ (session.zone.reading t).nanos ≠ 0 →
        session.splitDay scope m op left text span = .error (.located .nonZeroTime m.span)) ∧
      ((∀ x, (session.zone.reading x).date = (session.zone.reading t).date → t ≤ x) →
        Date.firstYear < (session.zone.reading t).date.year →
        (session.zone.reading t).date.year < Date.lastYear →
        (∀ n, (session.zone.reading t).dayNumber - 1 ≤ n →
          n ≤ (session.zone.reading t).dayNumber + 1 → session.zone.WholeDay n) →
        ∃ e, session.splitDay scope m op left text span = .ok e ∧
          ∀ x, e.Holds session scope (session.comparing left) x ↔
            op.Relates (session.zone.reading x).date (session.zone.reading t).date) := by
  have hnonempty : text ≠ "" := by
    rintro rfl
    cases ht
  have hlist : op ≠ .oneOf := by
    rintro rfl
    simp at hop
  refine ⟨?_, ?_, ?_⟩
  · intro right hid htext
    exact simplify_eq_splitDay hday hleft htype hid hlist htext hnonempty
  · intro htime
    apply splitDay_of_time ht
    simp only [Zone.isMidnight, Reading.isMidnight, Bool.and_eq_false_iff, beq_eq_false_iff_ne]
    exact htime
  · exact holds_splitDay_iff hleft htype hop ht

/-- A day of twenty-three hours: at its end clocks are set forward to the next midnight. -/
theorem simplify_compares_dates_short_day :
    ∃ session left t e,
      Session.start Zone.ofName? .dated { dayPrecision := true, timeZone := "Europe/Berlin" } []
        ⟨⟨0, 0⟩⟩ = .ok session ∧
      left.Resolved session.schema {} ∧ left.type = .date ∧
      session.dates.instant? "1916-04-30" = some t ∧
      (∀ x, (session.zone.reading x).date = (session.zone.reading t).date → t ≤ x) ∧
      (∀ n, (session.zone.reading t).dayNumber - 1 ≤ n →
        n ≤ (session.zone.reading t).dayNumber + 1 → session.zone.WholeDay n) ∧
      session.splitDay {} {} .equals left "1916-04-30" {} = .ok e ∧
      ∀ x, e.Holds session {} (session.comparing left) x ↔
        (session.zone.reading x).date = ⟨1916, 4, 30⟩ := by
  have hcompiles : (do
      let session ← (Session.start Zone.ofName? .dated
        { dayPrecision := true, timeZone := "Europe/Berlin" } [] ⟨⟨0, 0⟩⟩).toOption
      let left ← (FieldRef.bind session.schema {} { name := "Created Date" }).toExcept.toOption
      guard (left.type = DataType.date)
      let t ← session.dates.instant? "1916-04-30"
      guard (session.zone.earliest? (.ofDay (session.zone.reading t).dayNumber) = some t ∧
        (session.zone.reading t).date = Date.mk 1916 4 30 ∧
        session.zone.isSteadySince (-2400000000) = true ∧
        -27000 ≤ (session.zone.reading t).dayNumber)).isSome = true := by
    decide +kernel
  obtain ⟨_, hcompiles⟩ := Option.isSome_iff_exists.mp hcompiles
  obtain ⟨session, hsession, hcompiles⟩ := toOption_bind_eq_some_iff.mp hcompiles
  obtain ⟨left, hbind, hcompiles⟩ := toOption_bind_eq_some_iff.mp hcompiles
  obtain ⟨_, hguard, hcompiles⟩ := Option.bind_eq_some_iff.mp hcompiles
  obtain ⟨t, ht, hcompiles⟩ := Option.bind_eq_some_iff.mp hcompiles
  obtain ⟨hearliest, hdate, hsteady, hlate⟩ := guard_eq_some_iff.mp hcompiles
  have htype := guard_eq_some_iff.mp hguard
  have hleft := FieldRef.resolved_of_bind hbind
  have hdays : ∀ n, (session.zone.reading t).dayNumber - 1 ≤ n →
      n ≤ (session.zone.reading t).dayNumber + 1 → session.zone.WholeDay n := by
    intro n hn _
    exact Zone.wholeDay_of_isSteadySince hsteady (by omega)
  have hfirst : ∀ x, (session.zone.reading x).date = (session.zone.reading t).date → t ≤ x := by
    intro x hx
    exact (hdays _ (by omega) (by omega)).earliest?_le hearliest (Date.ofDayNumber_inj.mp hx)
  have hday : session.settings.dayPrecision = true := by
    obtain ⟨zone, -, hstart⟩ := bind_eq_ok_iff.mp hsession
    cases hstart
    rfl
  obtain ⟨-, -, hcompare⟩ :=
    simplify_compares_dates hday hleft htype (by decide : Comparison.equals ∈ _) ht {} {}
  obtain ⟨e, hsplit, hholds⟩ := hcompare hfirst (by rw [hdate]; decide) (by rw [hdate]; decide) hdays
  refine ⟨session, left, t, e, hsession, hleft, htype, ht, hfirst, hdays, hsplit, fun x => ?_⟩
  rw [← hdate]
  exact hholds x

end Session

end TrackerQuery

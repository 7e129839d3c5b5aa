import TrackerQuery.Proofs.Names

/-!
# Comparisons by the day

With day precision a comparison with a date becomes one with the first instant
of a day.  For a field that is resolved already, resolving the parts anew changes
nothing, so the outcome is known outright.
-/

namespace TrackerQuery.Session

/-- What a comparison with a day becomes, given the first instant of the day and
that of the day after it. -/
def dayCondition? (m : Mark) (left : FieldRef) (first following : Expr) :
    Comparison → Option Expr
  | .equals => some (.junction m .and
      [.compare .greaterOrEquals left.reference first, .compare .less left.reference following])
  | .notEquals => some (.junction m .or
      [.compare .less left.reference first, .compare .greaterOrEquals left.reference following])
  | .less => some (.condition m .less left first)
  | .greaterOrEquals => some (.condition m .greaterOrEquals left first)
  | .greater => some (.condition m .greaterOrEquals left following)
  | .lessOrEquals => some (.condition m .less left following)
  | _ => none

variable {session : Session} {scope : Scope}

/-- Resolving a comparison of a resolved field with a text leaves it as it is. -/
theorem bindParts_compare {op : Comparison} {left : FieldRef} {textMark : Mark} {text : String}
    {bound : Expr} (hleft : left.Resolved session.schema scope)
    (hbind : (Expr.bindParts session.schema scope
      (.compare op left (.string textMark text))).toExcept = .ok bound) :
    bound = .compare op left (.string textMark text) := by
  obtain ⟨left', right', hboundLeft, hboundRight, -, -, rfl⟩ := Expr.bindParts_condition hbind
  rw [(FieldRef.resolved_iff session.schema_canonical).mp hleft] at hboundLeft
  cases hboundLeft
  cases hboundRight
  rfl

theorem bindAll_eq_self {schema : Schema} {test : Expr → Except Error Unit} {es bound : List Expr}
    (hes : ∀ e ∈ es, ∀ b, (Expr.bindParts schema scope e).toExcept = .ok b → b = e)
    (hbind : (Expr.bindAll schema scope test es).toExcept = .ok bound) : bound = es := by
  induction es generalizing bound with
  | nil =>
      cases hbind
      rfl
  | cons e es ih =>
      obtain ⟨hfirst, hothers⟩ := List.forall_mem_cons.mp hes
      rw [Expr.bindAll] at hbind
      obtain ⟨b, hattempt, hbind⟩ := Attempt.andThen_eq_ok_iff.mp hbind
      obtain ⟨others, hbound, rfl⟩ := Attempt.map_eq_ok_iff.mp hbind
      obtain ⟨hchecked, -⟩ := Attempt.check_eq_ok_iff.mp hattempt
      obtain ⟨hparts, -⟩ := Attempt.check_eq_ok_iff.mp hchecked
      rw [hfirst b hparts, ih hothers hbound]

/-- Two comparisons of a resolved field with literals resolve to themselves. -/
theorem bind_join_compare {connective : Connective} {low high : Comparison} {left : FieldRef}
    {lowMark highMark : Mark} {lowText highText : String} {bound : Expr}
    (hleft : left.Resolved session.schema scope)
    (hbind : ((Expr.join connective [.compare low left (.string lowMark lowText),
      .compare high left (.string highMark highText)]).bind session.schema scope).toExcept =
        .ok bound) :
    bound = .join connective [.compare low left (.string lowMark lowText),
      .compare high left (.string highMark highText)] := by
  obtain ⟨hparts, -⟩ := Attempt.check_eq_ok_iff.mp hbind
  obtain ⟨operands, hoperands, rfl⟩ := Attempt.map_eq_ok_iff.mp hparts
  have hsame := bindAll_eq_self (by
    intro e he b hb
    simp only [List.mem_cons, List.not_mem_nil, or_false] at he
    obtain rfl | rfl := he
    · exact bindParts_compare hleft hb
    · exact bindParts_compare hleft hb) hoperands
  rw [hsame]
  rfl

/-- A comparison that is split by the day names a midnight and has a day after
it. -/
theorem splitDay_eq_ok_dayCondition {m : Mark} {op : Comparison} {left : FieldRef}
    {text : String} {span : Span} {e : Expr} (hleft : left.Resolved session.schema scope)
    (hsplit : session.splitDay scope m op left text span = .ok e) :
    ∃ t next, session.dates.instant? text = some t ∧ session.zone.isMidnight t = true ∧
      session.zone.addDays? t 1 = some next ∧
      dayCondition? m left (session.dateLiteral t span) (session.dateLiteral next span) op =
        some e := by
  unfold splitDay at hsplit
  obtain ⟨t, ht, hsplit⟩ := bind_eq_ok_iff.mp hsplit
  obtain ⟨_, hmidnight, hsplit⟩ := bind_eq_ok_iff.mp hsplit
  cases hnext : session.zone.addDays? t 1 with
  | none => simp [hnext] at hsplit
  | some next =>
      refine ⟨t, next, instant_eq_ok_iff.mp ht, Error.ensure_eq_ok_iff.mp hmidnight, hnext, ?_⟩
      simp only [hnext] at hsplit
      have hreference := resolved_reference hleft
      cases op with
      | equals | notEquals =>
          obtain ⟨c, hc, hmark⟩ := bind_eq_ok_iff.mp hsplit
          cases hmark
          rw [bind_join_compare hreference hc]
          rfl
      | less | greaterOrEquals | greater | lessOrEquals =>
          cases hsplit
          rfl
      | _ => cases hsplit

/-- A comparison of the kinds that splitting leaves is kept, with its date written
out. -/
theorem splitDay_of_midnight {m : Mark} {op : Comparison} {left : FieldRef} {text : String}
    {span : Span} {t next : Calendar.Instant} (hop : op = .less ∨ op = .greaterOrEquals)
    (ht : session.dates.instant? text = some t) (hmidnight : session.zone.isMidnight t = true)
    (hnext : session.zone.addDays? t 1 = some next) :
    session.splitDay scope m op left text span =
      .ok (.condition m op left (session.dateLiteral t span)) := by
  unfold splitDay
  apply bind_eq_ok_iff.mpr
  refine ⟨t, instant_eq_ok_iff.mpr ht, bind_eq_ok_iff.mpr ⟨(), Error.ensure_eq_ok_iff.mpr hmidnight, ?_⟩⟩
  simp only [hnext]
  obtain rfl | rfl := hop
  · rfl
  · rfl

end TrackerQuery.Session

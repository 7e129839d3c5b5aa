import TrackerQuery.Proofs.SimplifiedConditions

/-!
# Operands without effect

`true` next to `and` and `false` next to `or` are dropped, and the operand that is left
alone is reduced a second time.  Everything that reduction makes is kept by the second
time, except a comparison with a midnight: that one is split by the day again, which asks
for the day after it.  A zone may skip that midnight, so an operand without effect can
still make a query fail.
-/

namespace TrackerQuery

namespace Expr

/-- A truth value with its place changed; anything else as it is. -/
def constantAt (span : Span) : Expr → Expr
  | .truth _ value => .truth { span } value
  | e => e

variable {reduce : Reduction} {scope : Scope} {identity : Bool} {m : Mark} {e s : Expr}

/-- The identity is not among the operands that are left. -/
theorem foldOperands_identity {es : List Expr}
    (htruth : reduce scope (.truth m identity) = .ok (.truth m identity)) :
    foldOperands reduce scope identity (.truth m identity :: es) =
      foldOperands reduce scope identity es := by
  rw [foldOperands, simplifyWith, htruth]
  exact if_pos (beq_self_eq_true identity)

theorem foldOperands_single (hs : simplifyWith reduce scope e = .ok s) :
    foldOperands reduce scope identity [e] =
      .ok (s.truth?.elim (some [s]) fun value => if value == identity then some [] else none) := by
  rw [foldOperands]
  apply bind_eq_ok_iff.mpr
  refine ⟨s, hs, ?_⟩
  cases hvalue : s.truth? with
  | none => rfl
  | some value =>
      simp only [foldOperands, Option.elim_some]
      split
      · rfl
      · rfl

/-- What is left of one operand beside the identity is its truth value, or the operand
reduced once more. -/
theorem simplifyWith_identity {mark : Mark} {connective : Connective}
    (htruth : ∀ m value, reduce scope (.truth m value) = .ok (.truth m value)) :
    simplifyWith reduce scope (.junction m connective [.truth mark connective.identity, e]) =
      simplifyWith reduce scope e >>= fun s =>
        s.truth?.elim (reduce scope s) fun value => .ok (.truth { span := m.span } value) := by
  rw [simplifyWith, foldOperands_identity (htruth mark _)]
  cases hs : simplifyWith reduce scope e with
  | error error =>
      rw [foldOperands, hs]
      rfl
  | ok s =>
      rw [foldOperands_single hs]
      show _ = s.truth?.elim (reduce scope s) fun value => .ok (.truth { span := m.span } value)
      cases hvalue : s.truth? with
      | none => rfl
      | some value =>
          by_cases hidentity : value = connective.identity
          · subst hidentity
            simp only [Option.elim_some, beq_self_eq_true, if_true]
            exact htruth _ _
          · have hother : (!connective.identity) = value := by
              cases value <;> cases connective <;> first | rfl | exact absurd rfl hidentity
            simp only [Option.elim_some, beq_iff_eq, hidentity, if_false]
            exact hother ▸ htruth _ _

end Expr

namespace Session

variable {session : Session} {again : Reduction} {scope : Scope}

/-! ## What reduction makes of a clause -/

/-- Reduction keeps the expression, or it is the comparison with a midnight that splitting
a day makes. -/
def Residual (session : Session) (scope : Scope) : Expr → Prop
  | .condition m op left right => op ≠ .oneOf ∧ left.Resolved session.schema scope ∧
      ((∀ again, session.reduceCondition again scope m op left right =
        .ok (.condition m op left right)) ∨
      (op = .less ∨ op = .greaterOrEquals) ∧ left.id ≠ some CoreField.teamProject ∧
        ∃ t span, right = session.dateLiteral t span)
  | e => ∀ again, session.reduce again scope e = .ok e

theorem hereditary_residual : Expr.Hereditary (session.Residual scope) where
  truth _ _ _ := rfl
  junction _ _ := rfl
  not _ _ _ _ := rfl

variable {m : Mark} {op : Comparison} {left : FieldRef} {right : Expr}

theorem everywhere_residual_of_dayCondition {t next : Calendar.Instant} {span : Span} {e : Expr}
    (hleft : left.Resolved session.schema scope) (hid : left.id ≠ some CoreField.teamProject)
    (hday : dayCondition? m left (session.dateLiteral t span) (session.dateLiteral next span) op =
      some e) : e.Everywhere (session.Residual scope) := by
  apply everywhere_of_dayCondition (fun _ _ _ => rfl) _ hday
  intro mark bound field value hbound hfield hvalue
  have hsingle : bound ≠ .oneOf := by
    rintro rfl
    simp at hbound
  have hliteral : ∃ t span, value = session.dateLiteral t span := by
    obtain rfl | rfl := hvalue
    · exact ⟨t, span, rfl⟩
    · exact ⟨next, span, rfl⟩
  obtain rfl | rfl := hfield
  · exact ⟨hsingle, hleft, .inr ⟨hbound, hid, hliteral⟩⟩
  · exact ⟨hsingle, resolved_reference hleft, .inr ⟨hbound, hid, hliteral⟩⟩

/-- Only a list depends on what is done with the choice it stands for. -/
theorem residual_of_stable {e : Expr} (hstable : session.Stable scope e)
    (hresolved : e.Resolved session.schema scope) : session.Residual scope e := by
  cases e with
  | condition m op left right =>
      refine ⟨?_, hresolved.1.1, .inl hstable.reduce⟩
      rintro rfl
      let fails : Reduction := fun _ _ => .error (.located .invalidDate m.span)
      have hkept : session.reduceCondition fails scope m .oneOf left right = _ :=
        hstable.reduce fails
      obtain ⟨_, _, _, hagain⟩ := reduceCondition_oneOf hkept
      cases hagain
  | _ => exact hstable.reduce

theorem everywhere_residual_of_projectCondition {text : String} {span : Span} {e : Expr}
    (hnonempty : text ≠ "") (hproject : session.projectCondition scope m op left text span = .ok e) :
    e.Everywhere (session.Residual scope) := by
  obtain ⟨hresolved, -⟩ := projectCondition_eq_ok hproject
  have hstable := everywhere_stable_of_projectCondition hnonempty hproject
  have hparts := Expr.everywhere_of_resolved (fun _ h _ => h) e hresolved hresolved
  exact (hstable.and hparts).imp fun _ h => residual_of_stable h.1 h.2

/-- What a condition is reduced to is reduced no further, days apart. -/
theorem everywhere_residual_of_reduceCondition {e : Expr} (hop : op ≠ .oneOf)
    (hleft : left.Resolved session.schema scope)
    (hreduce : session.reduceCondition again scope m op left right = .ok e) :
    e.Everywhere (session.Residual scope) := by
  cases reduced_of_reduceCondition hreduce with
  | choice listMark items hlist => exact absurd hlist hop
  | emptySearch hsearch htext he =>
      rw [he]
      exact hereditary_residual.truth _ _
  | present id hnot hid hpresent htext he =>
      rw [he]
      exact hereditary_residual.truth _ _
  | project project _ hid htext hproject he =>
      exact everywhere_residual_of_projectCondition hproject he
  | same _ he =>
      subst he
      exact ⟨hop, hleft, .inl fun again' => (reduceCondition_congr hop again' again).trans hreduce⟩
  | day text _ hday htype htext hnonempty he =>
      obtain ⟨definition, hdefinition, -⟩ := definition_of_resolved hleft
      obtain ⟨hid, -⟩ := definition_eq_ok hdefinition
      by_cases hproject : definition.id = CoreField.teamProject
      · rw [reduceCondition_of_literal hop hdefinition htext hnonempty, if_pos hproject] at hreduce
        exact everywhere_residual_of_projectCondition hnonempty hreduce
      · obtain ⟨t, next, -, -, -, he⟩ := splitDay_eq_ok_dayCondition hleft he
        apply everywhere_residual_of_dayCondition hleft _ he
        rw [hid]
        exact fun heq => hproject (Option.some.inj heq)

theorem everywhere_residual_of_reduce {e s : Expr} (hleaf : e.isLeaf = true)
    (he : session.Residual scope e) (hs : session.reduce again scope e = .ok s) :
    s.Everywhere (session.Residual scope) := by
  cases e with
  | condition m op left right =>
      obtain ⟨hop, hleft, -⟩ := he
      exact everywhere_residual_of_reduceCondition hop hleft hs
  | junction | not | ever => cases hleaf
  | _ =>
      cases Except.ok.inj (hs.symm.trans (he again))
      exact he

/-- Whatever a resolved clause is simplified to is kept by another reduction, up to
comparisons by the day. -/
theorem everywhere_residual_of_simplify {e s : Expr} (hresolved : e.Resolved session.schema scope)
    (htype : e.dataType = .bool) (hsimplify : session.simplify scope e = .ok s) :
    s.Everywhere (session.Residual scope) := by
  refine everywhere_of_yields hereditary_residual (fun _ _ => everywhere_residual_of_reduce)
    ?_ (everywhere_admits (fun _ _ _ _ => rfl) e) hsimplify
  refine (Expr.everywhere_of_resolved (fun _ => And.intro) e hresolved ⟨hresolved, htype⟩).imp ?_
  rintro e ⟨hresolved, htype⟩
  have hpart := clausePart_of_resolved hresolved htype
  cases e with
  | junction | not | ever => exact nofun
  | condition m op left right =>
      have hleft := hresolved.1.1
      apply yields_condition hereditary_residual (fun _ _ _ => everywhere_residual_of_reduce)
        hresolved
      · intro hop again value s hvalue hs
        exact everywhere_residual_of_reduceCondition hop hleft hs
      · intro hop again again' listMark items item mark s hvalue hitem hs
        exact everywhere_residual_of_reduceCondition (by decide) (resolved_reference hleft) hs
  | _ =>
      intro hleaf s hs
      have hstable := stable_of_settled hpart.2.1 hpart.2.2.1
      cases Except.ok.inj (hs.symm.trans (hstable.simplify _))
      exact hstable.reduce

/-! ## Reduced once more -/

/-- The text is a midnight, written as the session writes it, and the day after it begins
with a midnight. -/
def opensDay (session : Session) (text : String) : Bool :=
  (session.dates.instant? text).any fun t =>
    session.zone.isMidnight t && (session.zone.addDays? t 1).isSome &&
      t.renderLocal session.zone == text

/-- A comparison by the day names a day that is followed by another. -/
def KeepsDay (session : Session) : Expr → Prop
  | .condition _ _ left right => session.settings.dayPrecision = true → left.type = .date →
      left.id ≠ some CoreField.teamProject →
        ∀ text ∈ right.literal?, text ≠ "" → session.opensDay text = true
  | _ => True

instance decidableKeepsDay (session : Session) : DecidablePred session.KeepsDay
  | .condition _ _ left right =>
      inferInstanceAs (Decidable (session.settings.dayPrecision = true → left.type = .date →
        left.id ≠ some CoreField.teamProject →
          ∀ text ∈ right.literal?, text ≠ "" → session.opensDay text = true))
  | .string .. | .number .. | .boolean .. | .truth .. | .var .. | .field .. | .list ..
  | .arithmetic .. | .junction .. | .not .. | .ever .. => isTrue trivial

theorem opensDay_iff {text : String} : session.opensDay text = true ↔
    ∃ t next, session.dates.instant? text = some t ∧ session.zone.isMidnight t = true ∧
      session.zone.addDays? t 1 = some next ∧ t.renderLocal session.zone = text := by
  simp only [opensDay, Option.any_eq_true, Bool.and_eq_true, beq_iff_eq, Option.isSome_iff_exists]
  constructor
  · rintro ⟨t, ht, ⟨hmidnight, next, hnext⟩, htext⟩
    exact ⟨t, next, ht, hmidnight, hnext, htext⟩
  · rintro ⟨t, next, ht, hmidnight, hnext, htext⟩
    exact ⟨t, ht, ⟨hmidnight, next, hnext⟩, htext⟩

/-- A comparison that splitting by the day keeps names a day that is followed by
another. -/
theorem opensDay_of_splitDay {text : String} (hleft : left.Resolved session.schema scope)
    (htext : right.literal? = some text)
    (hsplit : session.splitDay scope m op left text right.span =
      .ok (.condition m op left right)) : session.opensDay text = true := by
  obtain ⟨t, next, ht, hmidnight, hnext, hday⟩ := splitDay_eq_ok_dayCondition hleft hsplit
  apply opensDay_iff.mpr
  refine ⟨t, next, ht, hmidnight, hnext, ?_⟩
  have hright : right = session.dateLiteral t right.span := by
    cases op with
    | less | greaterOrEquals =>
        simp only [dayCondition?, Option.some.injEq, Expr.condition.injEq, true_and] at hday
        exact hday.symm
    | _ => simp [dayCondition?] at hday
  rw [hright] at htext
  exact Option.some.inj htext

/-- Reduction keeps what it made if the day that is compared with is followed by
another. -/
theorem reduce_eq_self_iff (again : Reduction) {e : Expr} (he : session.Residual scope e) :
    session.reduce again scope e = .ok e ↔ session.KeepsDay e := by
  cases e with
  | condition m op left right =>
      obtain ⟨hop, hleft, hresidual⟩ := he
      obtain ⟨definition, hdefinition, -⟩ := definition_of_resolved hleft
      obtain ⟨hid, -⟩ := definition_eq_ok hdefinition
      have hproject : definition.id = CoreField.teamProject ↔
          left.id = some CoreField.teamProject := by
        rw [hid, Option.some_inj]
      constructor
      · intro hreduce hday htype hother text htext hnonempty
        have hsplit : session.reduceCondition again scope m op left right = _ := hreduce
        rw [reduceCondition_of_literal hop hdefinition htext hnonempty,
          if_neg ((not_congr hproject).mpr hother), if_pos (by simp [hday, htype])] at hsplit
        exact opensDay_of_splitDay hleft htext hsplit
      · intro hkeeps
        obtain hkept | ⟨hbound, hother, t, span, rfl⟩ := hresidual
        · exact hkept again
        · have hnonempty := Calendar.renderLocal_ne_empty t session.zone
          show session.reduceCondition again scope m op left _ = _
          rw [reduceCondition_of_literal hop hdefinition rfl hnonempty,
            if_neg ((not_congr hproject).mpr hother)]
          split
          · rename_i hday
            obtain ⟨hday, htype⟩ := Bool.and_eq_true_iff.mp hday
            have hopens := hkeeps hday (beq_iff_eq.mp htype) hother _ rfl hnonempty
            obtain ⟨t', next, ht, hmidnight, hnext, htext⟩ := opensDay_iff.mp hopens
            rw [splitDay_of_midnight hbound ht hmidnight hnext, dateLiteral, htext]
            rfl
          · rfl
  | _ => exact iff_of_true (he again) trivial

/-! ## The whole clause -/

/-- Beside the identity of its connective a clause comes to what it comes to alone, a
truth value with the place of the whole, exactly if it is not left as a comparison
with a day that no other follows. -/
theorem simplify_identity_iff {written e : Expr}
    (hbind : (written.bind session.schema scope).toExcept = .ok e) (htype : e.dataType = .bool)
    (m mark : Mark) (connective : Connective) :
    session.simplify scope (.junction m connective [.truth mark connective.identity, e]) =
        (session.simplify scope e).map (Expr.constantAt m.span) ↔
      ∀ s, session.simplify scope e = .ok s → session.KeepsDay s := by
  have hresolved := Expr.resolved_of_bind hbind
  have hidentity : session.simplify scope
      (.junction m connective [.truth mark connective.identity, e]) = _ :=
    Expr.simplifyWith_identity fun _ _ => rfl
  rw [hidentity]
  change (session.simplify scope e >>= _) = _ ↔ _
  cases hs : session.simplify scope e with
  | error error => exact iff_of_true rfl nofun
  | ok s =>
      have hresidual := (everywhere_residual_of_simplify hresolved htype hs).self
      cases s with
      | truth m value =>
          apply iff_of_true rfl
          rintro _ ⟨⟩
          trivial
      | _ =>
          simp only [Except.ok.injEq, forall_eq']
          exact reduce_eq_self_iff (Expr.simplifyRounds session.reduce 1) hresidual

/-- Where clocks are set forward at midnight, the last day but two before that is compared
as it is alone. -/
theorem simplify_identity_before_summer :
    ∃ session e s,
      Session.start Calendar.Zone.ofName? .dated
        { dayPrecision := true, timeZone := "America/Sao_Paulo" } [] ⟨⟨0, 0⟩⟩ = .ok session ∧
      ((Expr.compare .greater { name := "Created Date" } (.string {} "2018-11-01")).bind
        session.schema {}).toExcept = .ok e ∧ e.dataType = .bool ∧
      session.simplify {} e = .ok s ∧ session.KeepsDay s ∧
      session.simplify {} (.junction {} .and [.truth {} true, e]) = .ok (s.constantAt {}) := by
  have hcompiles : (do
      let session ← (Session.start Calendar.Zone.ofName? .dated
        { dayPrecision := true, timeZone := "America/Sao_Paulo" } [] ⟨⟨0, 0⟩⟩).toOption
      let e ← ((Expr.compare .greater { name := "Created Date" } (.string {} "2018-11-01")).bind
        session.schema {}).toExcept.toOption
      guard (e.dataType = DataType.bool)
      let s ← (session.simplify {} e).toOption
      guard (session.KeepsDay s)).isSome = true := by
    decide +kernel
  obtain ⟨_, hcompiles⟩ := Option.isSome_iff_exists.mp hcompiles
  obtain ⟨session, hsession, hcompiles⟩ := toOption_bind_eq_some_iff.mp hcompiles
  obtain ⟨e, hbind, hcompiles⟩ := toOption_bind_eq_some_iff.mp hcompiles
  obtain ⟨_, hguard, hcompiles⟩ := Option.bind_eq_some_iff.mp hcompiles
  obtain ⟨s, hsimplify, hcompiles⟩ := toOption_bind_eq_some_iff.mp hcompiles
  have htype := guard_eq_some_iff.mp hguard
  have hkeeps := guard_eq_some_iff.mp hcompiles
  have hidentity := (simplify_identity_iff hbind htype {} {} .and).mpr (by
    intro _ hs
    cases Except.ok.inj (hs.symm.trans hsimplify)
    exact hkeeps)
  refine ⟨session, e, s, hsession, hbind, htype, hsimplify, hkeeps, ?_⟩
  rw [hsimplify] at hidentity
  exact hidentity

instance decidableFailsWith {ε α : Type} [DecidableEq ε] (x : Except ε α) (error : ε) :
    Decidable (x = .error error) :=
  match x with
  | .ok _ => isFalse nofun
  | .error _ => decidable_of_iff _ (Except.error.injEq _ error).to_iff.symm

/-- One day later the comparison alone still is with the day before the one that has no
midnight; beside an operand without effect it is refused. -/
theorem simplify_identity_skipped_midnight :
    ∃ session e s,
      Session.start Calendar.Zone.ofName? .dated
        { dayPrecision := true, timeZone := "America/Sao_Paulo" } [] ⟨⟨0, 0⟩⟩ = .ok session ∧
      ((Expr.compare .greater { name := "Created Date" } (.string {} "2018-11-02")).bind
        session.schema {}).toExcept = .ok e ∧ e.dataType = .bool ∧
      session.simplify {} e = .ok s ∧
      session.simplify {} (.junction {} .and [.truth {} true, e]) =
        .error (.located .invalidDate {}) ∧
      session.simplify {} (.junction {} .or [.truth {} false, e]) =
        .error (.located .invalidDate {}) := by
  have hcompiles : (do
      let session ← (Session.start Calendar.Zone.ofName? .dated
        { dayPrecision := true, timeZone := "America/Sao_Paulo" } [] ⟨⟨0, 0⟩⟩).toOption
      let e ← ((Expr.compare .greater { name := "Created Date" } (.string {} "2018-11-02")).bind
        session.schema {}).toExcept.toOption
      guard (e.dataType = DataType.bool)
      let s ← (session.simplify {} e).toOption
      guard (session.simplify {} (.junction {} .and [.truth {} true, e]) =
          Except.error (Error.located .invalidDate {}) ∧
        session.simplify {} (.junction {} .or [.truth {} false, e]) =
          Except.error (Error.located .invalidDate {}))).isSome = true := by
    decide +kernel
  obtain ⟨_, hcompiles⟩ := Option.isSome_iff_exists.mp hcompiles
  obtain ⟨session, hsession, hcompiles⟩ := toOption_bind_eq_some_iff.mp hcompiles
  obtain ⟨e, hbind, hcompiles⟩ := toOption_bind_eq_some_iff.mp hcompiles
  obtain ⟨_, hguard, hcompiles⟩ := Option.bind_eq_some_iff.mp hcompiles
  obtain ⟨s, hsimplify, hcompiles⟩ := toOption_bind_eq_some_iff.mp hcompiles
  exact ⟨session, e, s, hsession, hbind, guard_eq_some_iff.mp hguard, hsimplify,
    guard_eq_some_iff.mp hcompiles⟩

end Session

end TrackerQuery

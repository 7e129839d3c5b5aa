import TrackerQuery.Proofs.Stable

/-!
# Values of resolved constants

The value that takes the place of a macro or of arithmetic is resolved where they
were.  Only arithmetic that is not carried out needs an argument: it is compared with
text, so its left operand is text and has no value other than itself.
-/

namespace TrackerQuery

namespace Session

variable {session : Session} {again : Reduction} {scope : Scope}

/-- What is read as a date or a number but is of another type has no macro and no
arithmetic in it. -/
theorem settled_of_castsTo (e : Expr) (hconst : e.isConst = true)
    (hcasts : e.castsTo session.dates .date = .ok true ∨
      e.castsTo session.dates .numeric = .ok true)
    (hunknown : e.dataType ≠ .unknown) (hdate : e.dataType ≠ .date)
    (hnumeric : e.dataType ≠ .numeric) : session.Settled scope e := by
  induction e with
  | string | number | boolean | truth => rfl
  | var m v =>
      have hother : ∀ target, v.type ≠ target →
          (Expr.var m v).castsTo session.dates target = .ok true → target = .unknown := by
        intro target htype hv
        obtain htarget | hv := Bool.or_eq_true_iff.mp (Except.ok.inj hv)
        · exact beq_iff_eq.mp htarget
        · cases hv' : v.type <;> simp_all [Expr.dataType, Expr.variableCastsTo]
      obtain hcasts | hcasts := hcasts
      · cases hother _ hdate hcasts
      · cases hother _ hnumeric hcasts
  | arithmetic m op left right type ihleft ihright =>
      have hother : ∀ target, type ≠ target →
          (Expr.arithmetic m op left right type).castsTo session.dates target = .ok true →
            target = .unknown := by
        intro target htype hcasts
        obtain htarget | htarget := Bool.or_eq_true_iff.mp (Except.ok.inj hcasts)
        · exact beq_iff_eq.mp htarget
        · exact absurd (beq_iff_eq.mp htarget) htype
      obtain hcasts | hcasts := hcasts
      · cases hother _ hdate hcasts
      · cases hother _ hnumeric hcasts
  | list m items ih =>
      apply settled_list_iff.mpr
      intro item hitem
      cases items with
      | nil => cases hitem
      | cons first others =>
          have htype := Expr.dataType_of_commonType hunknown rfl item hitem
          apply ih item hitem (Expr.allConst_iff.mp hconst item hitem)
          · exact hcasts.imp (Expr.castsTo_list_iff.mp · item hitem)
              (Expr.castsTo_list_iff.mp · item hitem)
          · rw [htype]
            exact hunknown
          · rw [htype]
            exact hdate
          · rw [htype]
            exact hnumeric
  | _ => cases hconst

/-- Arithmetic stays only under a field that is neither a date nor a number, and only
with a number on its right. -/
theorem foldArithmetic_stays {m m' : Mark} {op op' : Arithmetic} {left left' right right' : Expr}
    {type type' : DataType}
    (hfold : session.foldArithmetic scope m op left right type =
      .ok (.arithmetic m' op' left' right' type')) :
    (∃ mark text, right = .number mark text) ∧
      ∃ fieldType, scope.fieldType? = some fieldType ∧ fieldType ≠ .date ∧
        fieldType ≠ .numeric := by
  unfold foldArithmetic at hfold
  split at hfold
  · refine ⟨⟨_, _, rfl⟩, ?_⟩
    cases op with
    | missing => cases hfold
    | add | subtract =>
        dsimp only [pure_bind] at hfold
        split at hfold
        · obtain ⟨_, _, hnumber⟩ := foldNumbers_eq_ok hfold
          cases hnumber
        · obtain ⟨_, _, hnumber⟩ := foldNumbers_eq_ok hfold
          cases hnumber
        · obtain ⟨_, _, hdate⟩ := foldDate_eq_ok hfold
          cases hdate
        · rename_i fieldType hnumeric hdate hfield
          exact ⟨fieldType, hfield, hdate, hnumeric⟩
  · cases hfold

/-- The expression can be compared with what is neither a date nor a number. -/
def CastsElsewhere (session : Session) (e : Expr) : Prop :=
  ∃ target, (target ≠ .unknown ∧ target ≠ .date ∧ target ≠ .numeric) ∧
    e.castsTo session.dates target = .ok true

/-- Arithmetic that stays is resolved with the value of its right operand; its left
operand is a value already. -/
theorem resolved_of_arithmetic {m : Mark} {op : Arithmetic} {left right right' : Expr}
    {type : DataType} {left' : Expr}
    (hresolved : (Expr.arithmetic m op left right type).Resolved session.schema scope)
    (helsewhere : session.CastsElsewhere (.arithmetic m op left right type))
    (hleft : session.operandValue? scope left = some left')
    (hfold : session.foldArithmetic scope m op left' right' type =
      .ok (.arithmetic m op left' right' type)) :
    (Expr.arithmetic m op left' right' type).Resolved session.schema scope := by
  obtain ⟨⟨mark, text, rfl⟩, fieldType, hfield, hdate, hnumeric⟩ := foldArithmetic_stays hfold
  obtain ⟨⟨hleftResolved, -, hconst, -, htype⟩, hverify⟩ := hresolved
  obtain ⟨hcasts, -⟩ := verifyArithmetic_eq_ok_iff.mp hverify
  have hown : type = left.dataType := by
    rw [htype, Expr.arithmeticType, hfield]
    split
    · exact absurd (Option.some.inj ‹_›) hdate
    · exact absurd (Option.some.inj ‹_›) hnumeric
    · rfl
  obtain ⟨target, ⟨hunknown, hdate, hnumeric⟩, htarget⟩ := helsewhere
  have htarget : type = target := by
    obtain hnone | hsame := Bool.or_eq_true_iff.mp (Except.ok.inj htarget)
    · exact absurd (beq_iff_eq.mp hnone) hunknown
    · exact beq_iff_eq.mp hsame
  have hleftType : left.dataType = target := hown.symm.trans htarget
  have hsettled : session.Settled scope left := by
    apply settled_of_castsTo left hconst ((orM_eq_ok_true_iff.mp hcasts).imp_right And.right) <;>
      rw [hleftType] <;> assumption
  cases Option.some.inj (hleft.symm.trans hsettled)
  exact ⟨⟨hleftResolved, ⟨trivial, rfl⟩, hconst, rfl, htype⟩,
    verifyArithmetic_eq_ok_iff.mpr ⟨hcasts, rfl⟩⟩

/-- The value of a resolved constant is resolved, provided that arithmetic which stays
is compared with what is neither a date nor a number. -/
theorem resolved_of_simplifyWith_const (e s : Expr) (hconst : e.isConst = true)
    (hresolved : e.Resolved session.schema scope)
    (helsewhere : ∀ type, scope.fieldType? = some type → type ≠ .date → type ≠ .numeric →
      session.CastsElsewhere e)
    (hsimplify : Expr.simplifyWith (session.reduce again) scope e = .ok s) :
    s.Resolved session.schema scope := by
  induction e generalizing s with
  | string m value | number m value | boolean m value | truth m value =>
      cases hsimplify
      exact hresolved
  | var m v =>
      cases hsimplify
      obtain ⟨_, _, hs⟩ | ⟨_, _, hs⟩ | hs := session.inlineVariable_cases m v
      · rw [hs]
        exact ⟨trivial, rfl⟩
      · rw [hs]
        exact ⟨trivial, rfl⟩
      · rw [hs]
        exact hresolved
  | arithmetic m op left right type ihleft ihright =>
      obtain ⟨left', hleft, hsimplify⟩ := bind_eq_ok_iff.mp hsimplify
      obtain ⟨right', -, hfold⟩ := bind_eq_ok_iff.mp hsimplify
      obtain ⟨hvalue, -, -⟩ :=
        operandValue?_of_simplifyWith_const left left' hresolved.1.2.2.1 hleft
      obtain ⟨_, _, rfl⟩ | ⟨_, _, rfl⟩ | rfl := foldArithmetic_eq_ok hfold
      · exact ⟨trivial, rfl⟩
      · exact ⟨trivial, rfl⟩
      · obtain ⟨-, fieldType, hfield, hdate, hnumeric⟩ := foldArithmetic_stays hfold
        exact resolved_of_arithmetic hresolved (helsewhere fieldType hfield hdate hnumeric)
          hvalue hfold
  | list m items ih =>
      obtain ⟨items', hitems, hreduce⟩ := bind_eq_ok_iff.mp hsimplify
      cases hreduce
      refine ⟨Expr.allResolved_iff.mpr ?_, rfl⟩
      refine Expr.forall_of_simplifyAll (fun item hitem s hs => ?_) hitems
      have hconst := Expr.allConst_iff.mp hconst item hitem
      obtain ⟨hitemResolved, -⟩ := Expr.allResolved_iff.mp hresolved.1 item hitem
      obtain ⟨-, hconst', -⟩ := operandValue?_of_simplifyWith_const item s hconst hs
      refine ⟨ih item hitem s hconst hitemResolved ?_ hs, Error.ensure_eq_ok_iff.mpr hconst'⟩
      intro type hfield hdate hnumeric
      obtain ⟨target, htarget, hcasts⟩ := helsewhere type hfield hdate hnumeric
      exact ⟨target, htarget, Expr.castsTo_list_iff.mp hcasts item hitem⟩
  | _ => cases hconst

/-- The right side of a condition can be compared with its field, or with text. -/
theorem castsElsewhere_of_checkRight {op : Comparison} {left : FieldRef} {right : Expr}
    (hleft : left.Resolved session.schema scope) (hdate : left.type ≠ .date)
    (hnumeric : left.type ≠ .numeric) (hconst : right.isConst = true)
    (hcheck : Expr.checkRight session.schema op left right = .ok ()) :
    session.CastsElsewhere right := by
  have hunknown : left.type ≠ .unknown := by
    obtain ⟨definition, -, htype⟩ := definition_of_resolved hleft
    rw [htype]
    unfold FieldDefinition.dataType
    split
    · nofun
    · split <;> nofun
  unfold Expr.checkRight at hcheck
  split at hcheck
  · cases hconst
  · exact ⟨left.type, ⟨hunknown, hdate, hnumeric⟩, Error.bind_ensure_eq_ok_iff.mp hcheck⟩
  · obtain ⟨-, hcasts⟩ := check_bind_eq_ok_iff.mp hcheck
    have hcasts := Error.bind_ensure_eq_ok_iff.mp hcasts
    by_cases htext : op = .under ∨ op = .inGroup
    · rw [if_pos htext] at hcasts
      exact ⟨.string, by simp, hcasts⟩
    · rw [if_neg htext] at hcasts
      exact ⟨left.type, ⟨hunknown, hdate, hnumeric⟩, hcasts⟩

/-- The value on the right of a resolved condition is resolved. -/
theorem resolved_of_simplifyWith_right {m : Mark} {op : Comparison} {left : FieldRef}
    {right value : Expr}
    (hresolved : (Expr.condition m op left right).Resolved session.schema scope)
    (hsimplify : Expr.simplifyWith (session.reduce again) (scope.withField left) right =
      .ok value) : value.Resolved session.schema (scope.withField left) := by
  obtain ⟨⟨hleft, hright, hcheck⟩, -⟩ := hresolved
  have hoperand := isOperand_of_checkRight hright hcheck
  cases right with
  | field m f =>
      cases hsimplify
      exact hright
  | _ =>
      apply resolved_of_simplifyWith_const _ value hoperand hright _ hsimplify
      intro type hfield hdate hnumeric
      cases hfield
      exact castsElsewhere_of_checkRight hleft hdate hnumeric hoperand hcheck

end Session

end TrackerQuery

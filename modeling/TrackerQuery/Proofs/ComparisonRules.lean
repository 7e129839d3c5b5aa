import TrackerQuery.Proofs.Outcome
import TrackerQuery.Session.Rules

/-!
# The rules of a comparison

What it takes to pass the checks of a comparison, as conditions on its parts.  Where
the comparison stands decides only what a failure reports, so a comparison that passes
in one place passes in every other.
-/

namespace TrackerQuery.Session

variable {session : Session} {definition : FieldDefinition} {left : FieldRef} {op : Comparison}
  {right : Expr} {span : Span} {mode : QueryMode}

theorem verifyValue_eq_ok_iff :
    session.verifyValue definition left op right span mode = .ok () ↔
      (op = .inGroup → session.verifyGroup definition = .ok ()) ∧
        (right.literal? = some "" → op.isEquality = true) ∧
        session.verifyByField definition op right span mode = .ok () ∧
        (op = .under → definition.type = .treePath) := by
  unfold verifyValue
  by_cases hgroup : op = .inGroup <;> by_cases hempty : right.literal? = some "" <;>
    by_cases hunder : op = .under <;> simp [*, check_bind_eq_ok_iff]

/-- A comparison with anything but another field. -/
theorem verifyComparison_eq_ok_iff (hright : ∀ m f, right ≠ .field m f) :
    session.verifyComparison left op right span mode = .ok () ↔
      op ≠ .missing ∧ ∃ definition, session.definition left = .ok definition ∧
        (op ≠ .oneOf → session.verifyValue definition left op right span mode = .ok ()) := by
  unfold verifyComparison
  rw [check_bind_eq_ok_iff, Error.ensure_eq_ok_iff, bne_iff_ne, bind_eq_ok_iff]
  apply and_congr_right
  intro _
  apply exists_congr
  intro definition
  apply and_congr_right
  intro _
  split
  · exact absurd rfl (hright _ _)
  · by_cases hop : op = .oneOf
    · simp [hop, pure, Except.pure]
    · simp [hop]

theorem verifyCondition_eq_ok_iff :
    session.verifyCondition left op right span mode = .ok () ↔
      session.verifyComparison left op right span mode = .ok () ∧
        ∀ m items, op = .oneOf → right = .list m items →
          ∀ item ∈ items, session.verifyComparison left .equals item span mode = .ok () := by
  unfold verifyCondition
  rw [check_bind_eq_ok_iff]
  apply and_congr_right
  intro _
  split
  · rw [for_eq_ok_iff]
    constructor
    · rintro hitems _ _ - ⟨⟩
      exact hitems
    · intro hitems
      exact hitems _ _ rfl rfl
  · rename_i hother
    constructor
    · rintro - m items rfl rfl
      exact absurd rfl (hother m items rfl)
    · intro _
      rfl

/-! ## The place of a comparison -/

theorem verifyTreePath_place (span' : Span)
    (hverify : session.verifyTreePath definition op right span = .ok ()) :
    session.verifyTreePath definition op right span' = .ok () := by
  simp only [verifyTreePath, check_bind_eq_ok_iff, Error.ensure_eq_ok_iff] at hverify ⊢
  exact hverify

theorem verifyLongText_place (span' : Span) (hverify : verifyLongText op right span = .ok ()) :
    verifyLongText op right span' = .ok () := by
  unfold verifyLongText at hverify ⊢
  split at hverify
  · rfl
  · simp only [check_bind_eq_ok_iff, Error.ensure_eq_ok_iff] at hverify ⊢
    exact hverify

theorem verifyProject_place (span' : Span)
    (hverify : session.verifyProject op right span = .ok ()) :
    session.verifyProject op right span' = .ok () := by
  simp only [verifyProject, check_bind_eq_ok_iff, Error.ensure_eq_ok_iff] at hverify ⊢
  exact hverify

theorem verifyLinkType_place (span' : Span)
    (hverify : session.verifyLinkType op right span mode = .ok ()) :
    session.verifyLinkType op right span' mode = .ok () := by
  simp only [verifyLinkType, check_bind_eq_ok_iff, Error.ensure_eq_ok_iff] at hverify ⊢
  exact hverify

/-- Whether a comparison passes does not depend on its place. -/
theorem verifyByField_place (span' : Span)
    (hverify : session.verifyByField definition op right span mode = .ok ()) :
    session.verifyByField definition op right span' mode = .ok () := by
  unfold verifyByField at hverify ⊢
  by_cases htree : definition.type = .treePath
  · rw [if_pos htree] at hverify ⊢
    exact verifyTreePath_place span' hverify
  rw [if_neg htree] at hverify ⊢
  by_cases hlong : definition.type.isLongText = true
  · rw [if_pos hlong] at hverify ⊢
    exact verifyLongText_place span' hverify
  rw [if_neg hlong] at hverify ⊢
  by_cases hproject : (definition.type = .string && definition.id = CoreField.teamProject) = true
  · rw [if_pos hproject] at hverify ⊢
    exact verifyProject_place span' hverify
  rw [if_neg hproject] at hverify ⊢
  by_cases hlink : definition.id = CoreField.linkType
  · rw [if_pos hlink] at hverify ⊢
    exact verifyLinkType_place span' hverify
  · rw [if_neg hlink] at hverify ⊢
    exact hverify

/-- A comparison of the same field in another place. -/
theorem verifyComparison_congr {left' : FieldRef} (span' : Span)
    (hleft : session.definition left' = session.definition left)
    (hright : ∀ m f, right ≠ .field m f)
    (hverify : session.verifyComparison left op right span mode = .ok ()) :
    session.verifyComparison left' op right span' mode = .ok () := by
  obtain ⟨hop, definition, hdefinition, hvalue⟩ := (verifyComparison_eq_ok_iff hright).mp hverify
  apply (verifyComparison_eq_ok_iff hright).mpr
  refine ⟨hop, definition, hleft.trans hdefinition, fun hlist => ?_⟩
  obtain ⟨hgroup, hempty, hfield, hunder⟩ := verifyValue_eq_ok_iff.mp (hvalue hlist)
  exact verifyValue_eq_ok_iff.mpr ⟨hgroup, hempty, verifyByField_place span' hfield, hunder⟩

/-! ## Dates -/

theorem type_of_dataType_date (hdate : definition.dataType = .date) :
    definition.id ≠ CoreField.linkType ∧ definition.type = .dateTime := by
  unfold FieldDefinition.dataType at hdate
  split at hdate
  · cases hdate
  · rename_i hlink
    refine ⟨hlink, ?_⟩
    cases htype : definition.type <;> simp [htype] at hdate ⊢

/-- There is no rule for dates. -/
theorem verifyByField_of_date (hdate : definition.dataType = .date) :
    session.verifyByField definition op right span mode = .ok () := by
  obtain ⟨hlink, htype⟩ := type_of_dataType_date hdate
  simp [verifyByField, hlink, htype, FieldType.isLongText]

end TrackerQuery.Session

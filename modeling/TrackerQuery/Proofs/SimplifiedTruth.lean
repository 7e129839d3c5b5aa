import TrackerQuery.Proofs.ClauseTruth
import TrackerQuery.Proofs.ComparisonRules
import TrackerQuery.Proofs.EverOperand
import TrackerQuery.Proofs.Filed
import TrackerQuery.Proofs.Names

/-!
# Simplification keeps the meaning

A simplified clause is true at the same revisions as the clause it came from.
Each reduction of a condition is justified by one law of the interpretation; the
rest is what `and`, `or`, `not` and `ever` do to truth values.
-/

namespace TrackerQuery

variable {Revision : Type}

namespace Session

/-! ## What resolving and simplifying leave behind -/

/-- The right side is one that may stand there, and a team project has its
qualifier and is compared for equality unless with another field or a list. -/
def Comparable (session : Session) (mode : QueryMode) (op : Comparison) (left : FieldRef)
    (right : Expr) : Prop :=
  right.isOperand = true ∧
    (left.id = some CoreField.teamProject →
      session.Knows mode left ∧
        (op = .oneOf ∨ op.isEquality = true ∨ ∃ m f, right = .field m f))

/-- What resolving leaves of an expression, as far as simplification relies on
it. -/
def Admitted (session : Session) (mode : QueryMode) : Expr → Prop
  | .condition _ op left right => session.Comparable mode op left right
  | .ever m operand => session.everAdmitted (.ever m operand)
  | .junction .. | .not .. => True
  | e => e.isOperand = true

/-- What simplifying leaves of an expression: every operand is a value. -/
def Evaluated (session : Session) (scope : Scope) : Expr → Prop
  | .condition _ op left right =>
      session.Comparable scope.mode op left right ∧
        session.Settled (scope.withField left) right
  | .ever .. | .junction .. | .not .. => True
  | e => session.Settled scope e

variable {session : Session} {scope : Scope}

/-- A link query that reads the team project off the link reads the area off it
too. -/
def AreaBesideProject (session : Session) (mode : QueryMode) : Prop :=
  mode.isLinkQuery = true → ∀ project area,
    session.catalog.fieldById? CoreField.teamProject = some project →
    session.catalog.fieldById? CoreField.areaPath = some area →
    project.isLinkField = true → area.isLinkField = true

theorem isEquality_of_verifyByField {definition : FieldDefinition} {op : Comparison}
    {right : Expr} {span : Span} {mode : QueryMode}
    (hid : definition.id = CoreField.teamProject) (htype : definition.type = .string)
    (hverify : session.verifyByField definition op right span mode = .ok ()) :
    op.isEquality = true := by
  have hverify : session.verifyProject op right span = .ok () := by
    simpa [verifyByField, hid, htype, FieldType.isLongText] using hverify
  obtain ⟨_, hequality, -⟩ := bind_eq_ok_iff.mp hverify
  exact Error.ensure_eq_ok_iff.mp hequality

section Resolved

variable (hstring : ∀ definition,
  session.catalog.fieldById? CoreField.teamProject = some definition → definition.type = .string)

include hstring

/-- The rule of the team project admits `=` and `<>` only. -/
theorem comparable_of_verifyCondition {left : FieldRef} {op : Comparison} {right : Expr}
    {span : Span} {mode : QueryMode} (hknows : session.Knows mode left)
    (hoperand : right.isOperand = true)
    (hverify : session.verifyCondition left op right span mode = .ok ()) :
    session.Comparable mode op left right := by
  refine ⟨hoperand, fun hproject => ⟨hknows, ?_⟩⟩
  obtain ⟨_, hverify, -⟩ := bind_eq_ok_iff.mp hverify
  obtain ⟨_, -, hverify⟩ := bind_eq_ok_iff.mp hverify
  obtain ⟨definition, hdefinition, hverify⟩ := bind_eq_ok_iff.mp hverify
  obtain ⟨hid, hfound⟩ := definition_eq_ok hdefinition
  have hid : definition.id = CoreField.teamProject := by
    rw [hproject] at hid
    exact (Option.some.inj hid).symm
  split at hverify
  · exact .inr (.inr ⟨_, _, rfl⟩)
  · split at hverify
    · exact .inl ‹_›
    · rw [hid] at hfound
      obtain ⟨-, -, hfield, -⟩ := verifyValue_eq_ok_iff.mp hverify
      exact .inr (.inl (isEquality_of_verifyByField hid (hstring definition hfound) hfield))

omit hstring in
theorem isOperand_of_checkRight {op : Comparison} {left : FieldRef} {right : Expr}
    (hright : right.Resolved session.schema (scope.withField left))
    (hcheck : Expr.checkRight session.schema op left right = .ok ()) : right.isOperand = true := by
  unfold Expr.checkRight at hcheck
  split at hcheck
  · rfl
  · exact Expr.isConst_of_resolved_list hright
  · obtain ⟨_, hconst, -⟩ := bind_eq_ok_iff.mp hcheck
    exact Expr.isOperand_of_isConst (Error.ensure_eq_ok_iff.mp hconst)

theorem admitted_of_resolved {e : Expr} (hresolved : e.Resolved session.schema scope) :
    session.Admitted scope.mode e := by
  cases e with
  | condition m op left right =>
      obtain ⟨⟨hleft, hright, hcheck⟩, hverify⟩ := hresolved
      exact comparable_of_verifyCondition hstring (knows_of_resolved hleft)
        (isOperand_of_checkRight hright hcheck) hverify
  | junction | not => trivial
  | ever m operand => exact hresolved.2
  | list m items => exact Expr.isConst_of_resolved_list hresolved
  | arithmetic m op left right type => exact Expr.isConst_of_resolved_arithmetic hresolved
  | _ => rfl

theorem everywhere_admitted_of_resolved (e : Expr) (hresolved : e.Resolved session.schema scope) :
    e.Everywhere (session.Admitted scope.mode) :=
  Expr.everywhere_of_resolved (fun _ h _ => admitted_of_resolved hstring h) e hresolved
    (admitted_of_resolved hstring hresolved)

end Resolved

/-! ## Each reduction keeps the meaning -/

/-- Propositions agree if one is the truth value `b` just if the other is. -/
theorem iff_of_iff_bool {P Q : Prop} (b : Bool) (h : (P ↔ b = true) ↔ (Q ↔ b = true)) :
    P ↔ Q := by
  by_cases hP : P <;> by_cases hQ : Q <;> cases b <;> simp_all

section Truth

variable {I : Interpretation Revision} {again : Reduction}

def KeepsTruth (session : Session) (I : Interpretation Revision) (scope : Scope)
    (simplify : Reduction) : Prop :=
  ∀ e s, e.Everywhere (session.Admitted scope.mode) → e.Everywhere (session.Evaluated scope) →
    simplify scope e = .ok s →
      s.Everywhere (session.Evaluated scope) ∧
        ∀ r, s.Holds session scope I r ↔ e.Holds session scope I r

/-- A comparison with a value is the one the interpretation decides. -/
theorem holds_condition_iff {m : Mark} {op : Comparison} {left : FieldRef} {right : Expr}
    (hsettled : session.Settled (scope.withField left) right) (r : Revision) :
    (Expr.condition m op left right).Holds session scope I r ↔
      I.condition ⟨left.id, left.qualifier, op, some right⟩ r := by
  rw [Expr.Holds, Session.atom, hsettled]

theorem settled_reference_iff {left : FieldRef} {e : Expr} :
    session.Settled (scope.withField left.reference) e ↔
      session.Settled (scope.withField left) e := by
  have hvalue : session.operandValue? (scope.withField left.reference) e =
      session.operandValue? (scope.withField left) e := operandValue?_congr (by rfl) e
  rw [Settled, Settled, hvalue]

/-- A list means the choice between its values. -/
theorem holds_alternatives_iff (hI : I.Faithful) {m listMark : Mark}
    {left : FieldRef} {items : List Expr}
    (hsettled : ∀ item ∈ items, session.Settled (scope.withField left) item) (r : Revision) :
    (alternatives m left items).Holds session scope I r ↔
      I.condition ⟨left.id, left.qualifier, .oneOf, some (.list listMark items)⟩ r := by
  have hitem : ∀ item ∈ items,
      ((Expr.compare .equals left.reference item).Holds session scope I r ↔
        I.condition ⟨left.id, left.qualifier, .equals, some item⟩ r) := fun item hmem =>
    holds_condition_iff (settled_reference_iff.mpr (hsettled item hmem)) r
  calc (alternatives m left items).Holds session scope I r
      ↔ ∃ e ∈ items.map (Expr.compare .equals left.reference), e.Holds session scope I r :=
        Expr.holds_or_iff
    _ ↔ ∃ item ∈ items, I.condition ⟨left.id, left.qualifier, .equals, some item⟩ r := by
        constructor
        · rintro ⟨e, he, hholds⟩
          obtain ⟨item, hmem, rfl⟩ := List.mem_map.mp he
          exact ⟨item, hmem, (hitem item hmem).mp hholds⟩
        · rintro ⟨item, hmem, hholds⟩
          exact ⟨_, List.mem_map_of_mem hmem, (hitem item hmem).mpr hholds⟩
    _ ↔ _ := (hI.oneOf _ _ _ _ _).symm

theorem everywhere_alternatives {m : Mark} {left : FieldRef} {items : List Expr}
    {P : Expr → Prop} (hjunction : ∀ m operands, P (.junction m .or operands))
    (hitem : ∀ item ∈ items, P (Expr.compare .equals left.reference item)) :
    (alternatives m left items).Everywhere P := by
  refine ⟨hjunction _ _, Expr.allEverywhere_iff.mpr fun e he => ?_⟩
  obtain ⟨item, hmem, rfl⟩ := List.mem_map.mp he
  exact hitem item hmem

/-- The area of a team project is the area path, in the qualifier it is read
with. -/
theorem areaField_eq_ok (hfiled : Catalog.Filed session.catalog.fields) {left area : FieldRef}
    (harea : session.areaField scope left = .ok area) :
    area.id = some CoreField.areaPath ∧
      ∃ written : FieldRef, written.id = some CoreField.areaPath ∧
        written.qualifier = left.qualifier ∧
        session.qualifier written scope.table = .ok area.qualifier := by
  unfold areaField at harea
  split at harea
  · cases harea
  · rename_i definition hdefinition
    have hid : definition.id = CoreField.areaPath := by
      simpa using List.find?_some hdefinition
    have hname : session.schema.findField definition.referenceName =
        some CoreField.areaPath := by
      show (session.catalog.field? definition.referenceName).map FieldDefinition.id = _
      rw [Catalog.field?_referenceName hfiled hdefinition, Option.map_some, hid]
    simp only [FieldRef.bind, hname] at harea
    split at harea
    · rename_i qualifier hqualifier
      cases harea
      refine ⟨rfl, _, ?_, ?_, hqualifier⟩ <;> rfl
    · cases harea

/-- The area has the qualifier of the team project where it lies beside it. -/
theorem qualifier_of_areaField (hfiled : Catalog.Filed session.catalog.fields)
    (hbeside : session.AreaBesideProject scope.mode) {left area : FieldRef}
    (hid : left.id = some CoreField.teamProject) (hknows : session.Knows scope.mode left)
    (harea : session.areaField scope left = .ok area) : area.qualifier = left.qualifier := by
  obtain ⟨-, written, hwrittenId, hwritten, hqualifier⟩ := areaField_eq_ok hfiled harea
  obtain ⟨project, hproject, -, hqualifies⟩ := hknows
  rw [definition?, hid, Option.bind_some] at hproject
  obtain ⟨definition, hdefinition, -⟩ := bind_eq_ok_iff.mp hqualifier
  obtain ⟨hdefinitionId, hfound⟩ := definition_eq_ok hdefinition
  rw [hwrittenId, Option.some.injEq] at hdefinitionId
  rw [← hdefinitionId] at hfound
  have hown : Qualifies scope.mode definition written.qualifier := by
    by_cases hlink : scope.mode.isLinkQuery = true ∧ definition.isLinkField = false
    · have hproject : project.isLinkField = false :=
        Bool.eq_false_iff.mpr fun hproject' => Bool.eq_false_iff.mp hlink.2
          (hbeside hlink.1 project definition hproject hfound hproject')
      rw [Qualifies, if_pos ⟨hlink.1, hproject⟩] at hqualifies
      rwa [Qualifies, if_pos hlink, hwritten]
    · rw [Qualifies, if_neg hlink]
      exact unqualified_of_qualifier hqualifier hdefinition hlink
  have hsame := qualifier_of_qualifies written hdefinition hown
  rw [hqualifier, hwritten] at hsame
  exact Except.ok.inj hsame

/-- A work item is in a project just if its area is under the project. -/
theorem holds_of_projectCondition (hfiled : Catalog.Filed session.catalog.fields)
    (hbeside : session.AreaBesideProject scope.mode) (hI : I.Faithful) {m : Mark}
    {op : Comparison} {left : FieldRef} {right e : Expr} {project : String}
    (hequality : op.isEquality = true) (hid : left.id = some CoreField.teamProject)
    (hknows : session.Knows scope.mode left) (htext : right.literal? = some project)
    (hnonempty : project ≠ "")
    (hproject : session.projectCondition scope m op left project right.span = .ok e) :
    e.Everywhere (session.Evaluated scope) ∧ ∀ r, e.Holds session scope I r ↔
      I.condition ⟨left.id, left.qualifier, op, some right⟩ r := by
  obtain ⟨-, area, harea, rfl⟩ := projectCondition_eq_ok hproject
  have hareaId := (areaField_eq_ok hfiled harea).1
  have hqualifier := qualifier_of_areaField hfiled hbeside hid hknows harea
  have hevaluated : ∀ m', session.Evaluated scope
      (.condition m' .under area (.string { span := right.span } project)) := by
    refine fun m' => ⟨⟨rfl, fun hteam => ?_⟩, rfl⟩
    rw [hareaId] at hteam
    cases hteam
  have hunder : ∀ m' r, (Expr.condition m' .under area
      (.string { span := right.span } project)).Holds session scope I r ↔ I.condition
        ⟨some CoreField.areaPath, left.qualifier, .under,
          some (.string { span := right.span } project)⟩ r := by
    intro m' r
    rw [← hareaId, ← hqualifier]
    exact holds_condition_iff (hevaluated m').2 r
  have hlaw := fun r =>
    hI.project left.qualifier right project { span := right.span } r htext hnonempty
  rw [← hid] at hlaw
  obtain hop | hop : op = .equals ∨ op = .notEquals := by
    simpa [Comparison.isEquality] using hequality
  · rw [hop, if_neg (by decide)]
    exact ⟨hevaluated m, fun r => (hunder m r).trans (hlaw r).1.symm⟩
  · rw [hop, if_pos rfl]
    exact ⟨⟨trivial, hevaluated _⟩, fun r => (not_congr (hunder _ r)).trans (hlaw r).2.symm⟩

/-- Whatever a condition with a value is reduced to, it means the same. -/
theorem holds_of_reduceCondition (hfiled : Catalog.Filed session.catalog.fields)
    (hbeside : session.AreaBesideProject scope.mode)
    (hday : session.settings.dayPrecision = false) (hI : I.Faithful)
    (hagain : session.KeepsTruth I scope again) {m : Mark} {op : Comparison} {left : FieldRef}
    {right e : Expr} (hevaluated : session.Evaluated scope (.condition m op left right))
    (hreduce : session.reduceCondition again scope m op left right = .ok e) :
    e.Everywhere (session.Evaluated scope) ∧ ∀ r, e.Holds session scope I r ↔
      (Expr.condition m op left right).Holds session scope I r := by
  obtain ⟨⟨hoperand, hproject⟩, hsettled⟩ := hevaluated
  cases reduced_of_reduceCondition hreduce with
  | choice listMark items hop hright hchoice =>
      subst hop hright
      have hitems := settled_list_iff.mp hsettled
      have hconst : ∀ item ∈ items, item.isOperand = true := fun item hitem =>
        Expr.isOperand_of_isConst (Expr.allConst_iff.mp hoperand item hitem)
      have hcomparable : ∀ item ∈ items,
          session.Comparable scope.mode .equals left.reference item := fun item hitem =>
        ⟨hconst item hitem, fun hid => ⟨(hproject hid).1, .inr (.inl rfl)⟩⟩
      obtain ⟨hkept, htruth⟩ := hagain (alternatives m left items) e
        (everywhere_alternatives (fun _ _ => trivial) hcomparable)
        (everywhere_alternatives (fun _ _ => trivial) fun item hitem =>
          ⟨hcomparable item hitem, settled_reference_iff.mpr (hitems item hitem)⟩) hchoice
      refine ⟨hkept, fun r => ?_⟩
      rw [htruth, holds_alternatives_iff hI hitems, holds_condition_iff hsettled]
  | emptySearch hop htext he =>
      subst he
      refine ⟨rfl, fun r => ?_⟩
      rw [holds_condition_iff hsettled]
      exact iff_of_true rfl (hI.emptySearch _ _ _ _ _ hop htext)
  | project project hop hid htext hnonempty he =>
      have hequality : op.isEquality = true := by
        obtain hlist | hequality | ⟨_, _, rfl⟩ := (hproject hid).2
        · exact absurd hlist hop
        · exact hequality
        · cases htext
      obtain ⟨hkept, htruth⟩ :=
        holds_of_projectCondition hfiled hbeside hI hequality hid (hproject hid).1 htext
          hnonempty he
      exact ⟨hkept, fun r => (htruth r).trans (holds_condition_iff hsettled r).symm⟩
  | day text hop hprecise =>
      rw [hday] at hprecise
      cases hprecise
  | present id hop hid hpresent htext he =>
      subst he hop
      refine ⟨rfl, fun r => ?_⟩
      rw [holds_condition_iff hsettled, hid]
      exact iff_of_true rfl (hI.present _ _ _ _ hpresent htext)
  | same hop he =>
      subst he
      exact ⟨⟨⟨hoperand, hproject⟩, hsettled⟩, fun r => Iff.rfl⟩

theorem everywhere_ofOperands {m : Mark} {connective : Connective} {es : List Expr}
    (hes : ∀ e ∈ es, e.Everywhere (session.Evaluated scope)) :
    (Expr.ofOperands m connective es).Everywhere (session.Evaluated scope) := by
  match es with
  | [] => rfl
  | [single] => exact hes single (by simp)
  | first :: second :: others => exact ⟨trivial, Expr.allEverywhere_iff.mpr hes⟩

theorem everywhere_of_settled {e : Expr} (hoperand : e.isOperand = true)
    (hsettled : session.Settled scope e) : e.Everywhere (session.Evaluated scope) := by
  cases e with
  | condition m op left right => cases hoperand
  | junction m connective operands => cases hoperand
  | not m operand => cases hoperand
  | ever m operand => cases hoperand
  | _ => exact hsettled

theorem holds_of_reduce (hfiled : Catalog.Filed session.catalog.fields)
    (hbeside : session.AreaBesideProject scope.mode)
    (hday : session.settings.dayPrecision = false) (hI : I.Faithful)
    (hagain : session.KeepsTruth I scope again) {e s : Expr}
    (he : e.Everywhere (session.Evaluated scope))
    (hreduce : session.reduce again scope e = .ok s) :
    s.Everywhere (session.Evaluated scope) ∧
      ∀ r, s.Holds session scope I r ↔ e.Holds session scope I r := by
  cases e with
  | condition m op left right =>
      exact holds_of_reduceCondition hfiled hbeside hday hI hagain he hreduce
  | junction m connective operands | not m operand | ever m operand =>
      cases hreduce
      exact ⟨he, fun r => Iff.rfl⟩
  | _ =>
      rw [reduce_of_settled rfl he] at hreduce
      cases hreduce
      exact ⟨he, fun r => Iff.rfl⟩

/-- The operands that are left have the meaning of all of them. -/
theorem holds_kept_iff {m : Mark} {connective : Connective} {es kept : List Expr}
    (htruth : ∀ e ∈ es, ∀ s, Expr.simplifyWith (session.reduce again) scope e = .ok s →
      ∀ r, s.Holds session scope I r ↔ e.Holds session scope I r)
    (hfold : Expr.foldOperands (session.reduce again) scope connective.identity es =
      .ok (some kept)) (r : Revision) :
    (Expr.junction m connective kept).Holds session scope I r ↔
      (Expr.junction m connective es).Holds session scope I r := by
  obtain ⟨hkept, hall⟩ := Expr.foldOperands_eq_some hfold
  refine iff_of_iff_bool connective.identity ?_
  rw [Expr.holds_junction_identity_iff, Expr.holds_junction_identity_iff]
  constructor
  · intro hagrees e he
    obtain ⟨s, hs, hplace⟩ := hall e he
    rw [← htruth e he s hs]
    obtain hmem | hidentity := hplace
    · exact hagrees s hmem
    · exact Expr.holds_truth?_iff hidentity
  · intro hagrees k hk
    obtain ⟨-, e, he, hs⟩ := hkept k hk
    rw [htruth e he k hs]
    exact hagrees e he

/-- One operand that decides the whole gives it its meaning. -/
theorem holds_decided_iff {m m' : Mark} {connective : Connective} {es : List Expr}
    (htruth : ∀ e ∈ es, ∀ s, Expr.simplifyWith (session.reduce again) scope e = .ok s →
      ∀ r, s.Holds session scope I r ↔ e.Holds session scope I r)
    (hfold : Expr.foldOperands (session.reduce again) scope connective.identity es = .ok none)
    (r : Revision) :
    (Expr.truth m' !connective.identity).Holds session scope I r ↔
      (Expr.junction m connective es).Holds session scope I r := by
  obtain ⟨e, he, s, hs, hdecides⟩ := Expr.foldOperands_eq_none hfold
  refine iff_of_iff_bool connective.identity ?_
  rw [Expr.holds_junction_identity_iff, Expr.Holds]
  refine iff_of_false (by simp) fun hagrees => ?_
  have hsame := hagrees e he
  rw [← htruth e he s hs, Expr.holds_truth?_iff hdecides] at hsame
  simp at hsame

/-- Simplification keeps the meaning of an expression if reduction does. -/
theorem holds_of_simplifyWith [Nonempty Revision]
    (hfiled : Catalog.Filed session.catalog.fields)
    (hbeside : session.AreaBesideProject scope.mode)
    (hday : session.settings.dayPrecision = false) (hI : I.Faithful)
    (hagain : session.KeepsTruth I scope again) (e s : Expr)
    (he : e.Everywhere (session.Admitted scope.mode))
    (hsimplify : Expr.simplifyWith (session.reduce again) scope e = .ok s) :
    s.Everywhere (session.Evaluated scope) ∧
      ∀ r, s.Holds session scope I r ↔ e.Holds session scope I r := by
  induction e generalizing s with
  | condition m op left right ih =>
      obtain ⟨right', hright, hreduce⟩ := Expr.simplifyWith_condition hsimplify
      obtain ⟨hvalue, hoperand, hsettled⟩ := operandValue?_of_simplifyWith he.1 hright
      have hcomparable : session.Comparable scope.mode op left right' := by
        refine ⟨hoperand, fun hid => (he.2 hid).imp_right (Or.imp_right (Or.imp_right ?_))⟩
        rintro ⟨_, _, rfl⟩
        cases hright
        exact ⟨_, _, rfl⟩
      obtain ⟨hkept, htruth⟩ :=
        holds_of_reduceCondition hfiled hbeside hday hI hagain (m := m) ⟨hcomparable, hsettled⟩ hreduce
      refine ⟨hkept, fun r => ?_⟩
      rw [htruth, holds_condition_iff hsettled, Expr.Holds, Session.atom, hvalue]
  | junction m connective operands ih =>
      have hoperands := Expr.allEverywhere_iff.mp he.2
      have htruth := fun e he s hs => (ih e he s (hoperands e he) hs).2
      obtain ⟨kept, hfold, hreduce⟩ | ⟨hfold, hreduce⟩ := Expr.simplifyWith_junction hsimplify
      · have hkept : ∀ k ∈ kept, k.Everywhere (session.Evaluated scope) := by
          intro k hk
          obtain ⟨-, e, he, hs⟩ := (Expr.foldOperands_eq_some hfold).1 k hk
          exact (ih e he k (hoperands e he) hs).1
        obtain ⟨hs, hsame⟩ := holds_of_reduce hfiled hbeside hday hI hagain
          (everywhere_ofOperands hkept) hreduce
        refine ⟨hs, fun r => ?_⟩
        rw [hsame, Expr.holds_ofOperands_iff]
        exact holds_kept_iff htruth hfold r
      · cases hreduce
        exact ⟨rfl, holds_decided_iff htruth hfold⟩
  | not m operand ih =>
      obtain ⟨operand', hoperand, hcases⟩ := Expr.simplifyWith_not hsimplify
      obtain ⟨hkept, htruth⟩ := ih operand' he.2 hoperand
      obtain ⟨inner, rfl⟩ | ⟨inner, value, rfl, hreduce⟩ | hreduce := hcases
      · refine ⟨hkept.2, fun r => ?_⟩
        rw [Expr.Holds, ← htruth, Expr.Holds, Classical.not_not]
      · cases hreduce
        refine ⟨rfl, fun r => ?_⟩
        rw [Expr.Holds, Expr.Holds, ← htruth, Expr.Holds]
        cases value <;> simp
      · cases hreduce
        exact ⟨⟨trivial, hkept⟩, fun r => not_congr (htruth r)⟩
  | ever m operand ih =>
      obtain ⟨operand', hoperand, hcases⟩ := Expr.simplifyWith_ever hsimplify
      obtain ⟨hkept, htruth⟩ := ih operand' he.2 hoperand
      obtain ⟨m', op, left, right, rfl, hop, hdate⟩ := verifyEver_eq_ok he.1
      obtain ⟨inner, value, rfl⟩ | ⟨inner, op', left', right', rfl, -⟩ :=
        simplifyWith_everOperand hop hdate hoperand
      · obtain ⟨_, hs⟩ | ⟨_, _, hs, hreduce⟩ | ⟨hnone, -⟩ := hcases
        · cases hs
        · cases hs
          cases hreduce
          refine ⟨rfl, fun r => ?_⟩
          rw [Expr.Holds, Expr.Holds]
          exact (exists_const Revision).symm.trans (exists_congr htruth)
        · cases hnone
      · obtain ⟨_, hs⟩ | ⟨_, _, hs, -⟩ | ⟨-, hreduce⟩ := hcases
        · cases hs
        · cases hs
        · cases hreduce
          exact ⟨⟨trivial, hkept⟩, fun r => exists_congr htruth⟩
  | truth m value =>
      cases hsimplify
      exact ⟨rfl, fun r => Iff.rfl⟩
  | _ =>
      obtain ⟨hvalue, hoperand, hsettled⟩ := operandValue?_of_simplifyWith he hsimplify
      have htruth := truth?_of_operandValue? hvalue
      refine ⟨everywhere_of_settled hoperand hsettled, fun r => ?_⟩
      rw [Expr.holds_operand_iff hoperand htruth, Expr.holds_operand_iff he rfl, hsettled, hvalue]

theorem keepsTruth_simplifyRounds [Nonempty Revision]
    (hfiled : Catalog.Filed session.catalog.fields)
    (hbeside : session.AreaBesideProject scope.mode)
    (hday : session.settings.dayPrecision = false) (hI : I.Faithful)
    (rounds : Nat) : session.KeepsTruth I scope (Expr.simplifyRounds session.reduce rounds) := by
  induction rounds with
  | zero =>
      intro e s _ hevaluated hs
      cases hs
      exact ⟨hevaluated, fun r => Iff.rfl⟩
  | succ rounds ih =>
      intro e s hadmitted _ hs
      exact holds_of_simplifyWith hfiled hbeside hday hI ih e s hadmitted hs

/-- A clause that is resolved and simplified is true at the same revisions as
before: macros, arithmetic, lists, projects and truth values are replaced by what
they mean.  Every catalog that is read is filed, by `Catalog.filed_of_read`. -/
theorem holds_simplify_iff [Nonempty Revision] {e bound simplified : Expr}
    (hfiled : Catalog.Filed session.catalog.fields)
    (hstring : ∀ definition, session.catalog.fieldById? CoreField.teamProject = some definition →
      definition.type = .string)
    (hbeside : session.AreaBesideProject scope.mode)
    (hday : session.settings.dayPrecision = false) (hI : I.Faithful)
    (hbind : (e.bind session.schema scope).toExcept = .ok bound)
    (hsimplify : session.simplify scope bound = .ok simplified) (r : Revision) :
    simplified.Holds session scope I r ↔ bound.Holds session scope I r := by
  have hadmitted := everywhere_admitted_of_resolved hstring bound (Expr.resolved_of_bind hbind)
  have hagain := keepsTruth_simplifyRounds hfiled hbeside hday hI 1
  exact (holds_of_simplifyWith hfiled hbeside hday hI hagain bound simplified hadmitted
    hsimplify).2 r

/-- A negated choice between a foreign project and a list with a macro, on the
target side of a link. -/
theorem holds_simplify_of_project_or_list :
    let session : Session :=
      { catalog := { Catalog.core with areas := [.mk 1 "Fabrikam" []] }, settings := {},
        zone := .utc }
    let scope : Scope :=
      { table := some { name := "WorkItemLinks", resolved := some .linksMustContain } }
    let clause : Expr := .not {} (.junction {} .or
      [.condition {} .notEquals { qualifier := "target", name := "Team Project" }
          (.string {} "Fabrikam"),
        .condition {} .oneOf { name := "State" }
          (.list {} [.string {} "Closed", .var {} { name := "me" }])])
    session.AreaBesideProject scope.mode ∧
      ∃ bound simplified, (clause.bind session.schema scope).toExcept = .ok bound ∧
        session.simplify scope bound = .ok simplified ∧
        ∀ r, simplified.Holds session scope Interpretation.sideTexts r ↔
          bound.Holds session scope Interpretation.sideTexts r := by
  intro session scope clause
  have hbeside : session.AreaBesideProject scope.mode := by
    rintro - project area hproject - hlink
    cases hproject
    cases hlink
  have hsimplifies : (do
      let bound ← (clause.bind session.schema scope).toExcept.toOption
      (session.simplify scope bound).toOption).isSome = true := by
    decide
  obtain ⟨simplified, hsimplifies⟩ := Option.isSome_iff_exists.mp hsimplifies
  simp only [Option.bind_eq_bind, Option.bind_eq_some_iff, toOption_eq_some_iff] at hsimplifies
  obtain ⟨bound, hbind, hsimplify⟩ := hsimplifies
  have : Nonempty (Option String → { text : String // text ≠ "" }) :=
    ⟨fun _ => ⟨"Fabrikam", by decide⟩⟩
  exact ⟨hbeside, bound, simplified, hbind, hsimplify, holds_simplify_iff Catalog.filed_core
    (by decide) hbeside rfl Interpretation.sideTexts_faithful hbind hsimplify⟩

/-- Where the team project is read off the link and the area is not, the project of
the link becomes the area of the source. -/
theorem holds_simplify_of_link_project :
    let session : Session :=
      { catalog :=
          { Catalog.core with
            fields := Catalog.core.fields.map fun (name, definition) =>
              if definition.id = CoreField.teamProject then
                (name, { definition with usage := .workItemLink })
              else (name, definition)
            areas := [.mk 1 "Fabrikam" []] }
        settings := {}, zone := .utc }
    let scope : Scope :=
      { table := some { name := "WorkItemLinks", resolved := some .linksMustContain } }
    let clause : Expr :=
      .condition {} .equals { name := "Team Project" } (.string {} "Fabrikam")
    Catalog.Filed session.catalog.fields ∧
      (∀ definition, session.catalog.fieldById? CoreField.teamProject = some definition →
        definition.type = .string) ∧
      Interpretation.sideTexts.Faithful ∧
      ∃ bound simplified, (clause.bind session.schema scope).toExcept = .ok bound ∧
        session.simplify scope bound = .ok simplified ∧
        ∃ r, bound.Holds session scope Interpretation.sideTexts r ∧
          ¬simplified.Holds session scope Interpretation.sideTexts r := by
  intro session scope clause
  refine ⟨?_, by decide, Interpretation.sideTexts_faithful, _, _, rfl, rfl, ?_⟩
  · unfold Catalog.Filed
    decide
  · refine ⟨fun side => if side.isNone then ⟨"Fabrikam", by decide⟩ else ⟨"Contoso", by decide⟩, ?_⟩
    constructor
    · rfl
    · intro hsource
      have hsource : "Fabrikam" = "Contoso" := Option.some.inj hsource
      cases String.toList_inj.mpr hsource

end Truth

end Session

end TrackerQuery

import TrackerQuery.Proofs.Lockstep
import TrackerQuery.Proofs.Stable

/-!
# Lists that are spelled out

An `in` list stands for the choice between comparisons by `=`, one for each of its values.
A filter in which one list is spelled out in this way is accepted just when the filter with
the list is, wherever in `and`, `or` and `not` the list stands: the list takes each of its
values as if it stood in a comparison of its own.
-/

namespace TrackerQuery

theorem forall₂_and_right_iff {α β : Type} {R : α → β → Prop} {P : β → Prop} {l : List α}
    {u : List β} :
    List.Forall₂ (fun a b => R a b ∧ P b) l u ↔ List.Forall₂ R l u ∧ ∀ b ∈ u, P b := by
  constructor
  · intro h
    induction h with
    | nil => exact ⟨.nil, by simp⟩
    | cons hfirst _ ih => exact ⟨.cons hfirst.1 ih.1, List.forall_mem_cons.mpr ⟨hfirst.2, ih.2⟩⟩
  · rintro ⟨h, hall⟩
    induction h with
    | nil => exact .nil
    | cons hfirst _ ih =>
        obtain ⟨hb, hothers⟩ := List.forall_mem_cons.mp hall
        exact .cons ⟨hfirst, hb⟩ (ih hothers)

/-- A check that nothing fails. -/
theorem Attempt.toExcept_map_check {α β : Type} {f : α → β} {test : β → Except Error Unit}
    (a : Attempt α) (htest : ∀ value, test (f value) = .ok ()) :
    ((a.map f).check test).toExcept = a.toExcept.map f := by
  rw [toExcept_check, toExcept_map]
  cases a.toExcept with
  | error e => rfl
  | ok value =>
      show (test (f value) >>= fun _ => pure (f value)) = _
      rw [htest]
      rfl

namespace Expr

def isValue (e : Expr) : Bool :=
  e.isScalar && e.isConst

def Asserts (left : FieldRef) (item e : Expr) : Prop :=
  ∃ m, e = .condition m .equals left item

theorem asserts_compare (left : FieldRef) (items : List Expr) :
    List.Forall₂ (Asserts left) items (items.map (compare .equals left)) :=
  List.forall₂_map_right_iff.mpr (List.forall₂_same.mpr fun _ _ => ⟨_, rfl⟩)

/-- The second expression is the first with one `in` list spelled out. -/
inductive SpelledOut : Expr → Expr → Prop
  | one {m listMark m' : Mark} {left : FieldRef} {item : Expr}
      (hdirection : left.direction = .unspecified) (hvalue : item.isValue = true) :
      SpelledOut (.condition m .oneOf left (.list listMark [item]))
        (.condition m' .equals left item)
  | many {m listMark m' : Mark} {left : FieldRef} {items es : List Expr}
      (hdirection : left.direction = .unspecified) (hvalues : ∀ item ∈ items, item.isValue = true)
      (hmany : 2 ≤ items.length) (hitems : List.Forall₂ (Asserts left) items es) :
      SpelledOut (.condition m .oneOf left (.list listMark items)) (.junction m' .or es)
  | not {m : Mark} {e e' : Expr} (h : SpelledOut e e') : SpelledOut (.not m e) (.not m e')
  | junction {m : Mark} {connective : Connective} {before after : List Expr} {e e' : Expr}
      (h : SpelledOut e e') :
      SpelledOut (.junction m connective (before ++ e :: after))
        (.junction m connective (before ++ e' :: after))

theorem SpelledOut.dataType_eq {e e' : Expr} (h : SpelledOut e e') :
    e.dataType = .bool ∧ e'.dataType = .bool := by
  cases h <;> exact ⟨rfl, rfl⟩

/-! ## Successful resolution -/

section Bind

variable {schema : Schema} {scope : Scope}

/-- A condition is resolved part by part and then checked. -/
theorem bind_condition_eq_ok_iff {m : Mark} {op : Comparison} {left : FieldRef}
    {right bound : Expr} :
    ((Expr.condition m op left right).bind schema scope).toExcept = .ok bound ↔
      ∃ left' right', (left.bind schema scope).toExcept = .ok left' ∧
        (right.bind schema (scope.withField left')).toExcept = .ok right' ∧
        checkRight schema op left' right' = .ok () ∧
        schema.verifyExpr scope (.condition m op left' right') = .ok () ∧
        bound = .condition m op left' right' := by
  rw [Expr.bind, Attempt.toExcept_check, toExcept_bindParts_condition]
  simp only [Attempt.toExcept_check, bind_eq_ok_iff, pure_eq_ok_iff]
  constructor
  · rintro ⟨_, ⟨left', hleft, _, ⟨right', hright, ⟨⟩, hcheck, rfl⟩, rfl⟩, ⟨⟩, hverify, rfl⟩
    exact ⟨left', right', hleft, hright, hcheck, hverify, rfl⟩
  · rintro ⟨left', right', hleft, hright, hcheck, hverify, rfl⟩
    exact ⟨_, ⟨left', hleft, _, ⟨right', hright, (), hcheck, rfl⟩, rfl⟩, (), hverify, rfl⟩

theorem bindAll_eq_ok_iff {test : Expr → Except Error Unit} {es bound : List Expr} :
    (bindAll schema scope test es).toExcept = .ok bound ↔
      List.Forall₂ (fun e b => (e.bind schema scope).toExcept = .ok b ∧ test b = .ok ())
        es bound := by
  induction es generalizing bound with
  | nil =>
      rw [List.forall₂_nil_left_iff]
      exact ⟨fun h => (Except.ok.inj h).symm, fun h => congrArg Except.ok h.symm⟩
  | cons e es ih =>
      rw [toExcept_bindAll_cons, List.forall₂_cons_left_iff]
      simp only [Attempt.toExcept_check, bind_eq_ok_iff, pure_eq_ok_iff, map_eq_ok_iff, ih]
      constructor
      · rintro ⟨first, ⟨_, hfirst, ⟨⟩, htest, rfl⟩, others, hothers, rfl⟩
        exact ⟨_, others, ⟨hfirst, htest⟩, hothers, rfl⟩
      · rintro ⟨first, others, ⟨hfirst, htest⟩, hothers, rfl⟩
        exact ⟨first, ⟨first, hfirst, (), htest, rfl⟩, others, hothers, rfl⟩

theorem toExcept_bindAll_append (test : Expr → Except Error Unit) (es fs : List Expr) :
    (bindAll schema scope test (es ++ fs)).toExcept = (do
      let es ← (bindAll schema scope test es).toExcept
      (bindAll schema scope test fs).toExcept.map (es ++ ·)) := by
  induction es with
  | nil =>
      show _ = (bindAll schema scope test fs).toExcept.map id
      rw [List.nil_append]
      cases (bindAll schema scope test fs).toExcept <;> rfl
  | cons e es ih =>
      rw [List.cons_append, toExcept_bindAll_cons, toExcept_bindAll_cons, ih]
      generalize ((e.bind schema scope).check test).toExcept = x
      generalize (bindAll schema scope test es).toExcept = y
      generalize (bindAll schema scope test fs).toExcept = z
      cases x <;> cases y <;> cases z <;> rfl

/-- A value is resolved to a value. -/
theorem isValue_of_bind {e bound : Expr} (hvalue : e.isValue = true)
    (hbind : (e.bind schema scope).toExcept = .ok bound) : bound.isValue = true := by
  obtain ⟨hparts, -⟩ := Attempt.check_eq_ok_iff.mp hbind
  cases e with
  | string m value | number m value | boolean m value | truth m value =>
      cases hparts
      rfl
  | var m v =>
      unfold bindParts bindVariable at hparts
      split at hparts
      · cases hparts
      · cases hparts
        rfl
  | arithmetic m op left right type =>
      rw [toExcept_bindParts_arithmetic] at hparts
      simp only [bind_eq_ok_iff, pure_eq_ok_iff, Error.ensure_eq_ok_iff] at hparts
      obtain ⟨left', -, right', -, -, hconst, rfl⟩ := hparts
      exact hconst
  | _ => cases hvalue

theorem checkRight_of_isValue {left : FieldRef} {right : Expr} (hvalue : right.isValue = true) :
    checkRight schema .equals left right = .ok () ↔
      right.castsTo schema.dates left.type = .ok true := by
  have hconst : right.isConst = true := (Bool.and_eq_true_iff.mp hvalue).2
  have hkind : checkRight schema .equals left right = (do
      ensureConst right
      Error.ensure (← right.castsTo schema.dates left.type)
        (.located .incompatibleRightConst right.span)) := by
    cases right <;> first | rfl | cases hvalue
  rw [hkind, check_bind_eq_ok_iff, ensureConst, Error.ensure_eq_ok_iff,
    Error.bind_ensure_eq_ok_iff]
  exact and_iff_right hconst

end Bind

end Expr

/-! ## Resolving -/

namespace Session

variable {session : Session} {scope : Scope}

theorem direction_of_bind {field bound : FieldRef}
    (hbind : (field.bind session.schema scope).toExcept = .ok bound) :
    bound.direction = field.direction := by
  rw [FieldRef.toExcept_bind] at hbind
  split at hbind
  · cases hbind
  · obtain ⟨qualifier, -, rfl⟩ := map_eq_ok_iff.mp hbind
    rfl

/-- The item is resolved to a value that the field may be compared with by `=`. -/
structure Accepts (session : Session) (scope : Scope) (left : FieldRef) (item bound : Expr) :
    Prop where
  bind : (item.bind session.schema (scope.withField left)).toExcept = .ok bound
  casts : bound.castsTo session.dates left.type = .ok true
  verified : ∀ span, session.verifyComparison left .equals bound span scope.mode = .ok ()

theorem verifyComparison_iff_forall {left : FieldRef} {right : Expr} (hvalue : right.isValue = true)
    {span : Span} {mode : QueryMode} :
    session.verifyComparison left .equals right span mode = .ok () ↔
      ∀ span, session.verifyComparison left .equals right span mode = .ok () := by
  have hright : ∀ m f, right ≠ .field m f := by
    rintro m f rfl
    cases hvalue
  exact ⟨fun hverify span' => verifyComparison_congr span' rfl hright hverify, fun h => h span⟩

/-- A comparison by `=` is resolved if the field accepts the value. -/
theorem bind_equals_eq_ok_iff {m : Mark} {left : FieldRef} {item bound : Expr}
    (hvalue : item.isValue = true) :
    ((Expr.condition m .equals left item).bind session.schema scope).toExcept = .ok bound ↔
      ∃ left' item', (left.bind session.schema scope).toExcept = .ok left' ∧
        session.Accepts scope left' item item' ∧ bound = .condition m .equals left' item' := by
  have hverify : ∀ left' item', session.schema.verifyExpr scope
      (.condition m .equals left' item') = .ok () ↔
        session.verifyComparison left' .equals item' m.span scope.mode = .ok () := by
    intro left' item'
    show session.verifyCondition left' .equals item' m.span scope.mode = .ok () ↔ _
    rw [verifyCondition_eq_ok_iff]
    exact and_iff_left nofun
  simp only [Expr.bind_condition_eq_ok_iff, hverify]
  constructor
  · rintro ⟨left', item', hleft, hitem, hcheck, hverify, rfl⟩
    have hvalue' := Expr.isValue_of_bind hvalue hitem
    exact ⟨left', item', hleft, ⟨hitem, (Expr.checkRight_of_isValue hvalue').mp hcheck,
      (verifyComparison_iff_forall hvalue').mp hverify⟩, rfl⟩
  · rintro ⟨left', item', hleft, ⟨hitem, hcasts, hverify⟩, rfl⟩
    have hvalue' := Expr.isValue_of_bind hvalue hitem
    exact ⟨left', item', hleft, hitem, (Expr.checkRight_of_isValue hvalue').mpr hcasts,
      hverify _, rfl⟩

theorem bind_list_eq_ok_iff {m : Mark} {items : List Expr} {bound : Expr} :
    ((Expr.list m items).bind session.schema scope).toExcept = .ok bound ↔
      ∃ items', List.Forall₂ (fun item b => (item.bind session.schema scope).toExcept = .ok b ∧
        Expr.ensureConst b = .ok ()) items items' ∧ Expr.list m items' = bound := by
  have hbind : ((Expr.list m items).bind session.schema scope).toExcept =
      (Expr.bindAll session.schema scope Expr.ensureConst items).toExcept.map (.list m) :=
    Attempt.toExcept_map_check _ fun _ => rfl
  simp only [hbind, map_eq_ok_iff, Expr.bindAll_eq_ok_iff]

/-- A list is accepted if each of its values is. -/
theorem bind_oneOf_eq_ok_iff {m listMark : Mark} {left : FieldRef} {items : List Expr}
    {bound : Expr} (hvalues : ∀ item ∈ items, item.isValue = true) :
    ((Expr.condition m .oneOf left (.list listMark items)).bind session.schema scope).toExcept =
        .ok bound ↔
      ∃ left' items', (left.bind session.schema scope).toExcept = .ok left' ∧
        List.Forall₂ (session.Accepts scope left') items items' ∧
        bound = .condition m .oneOf left' (.list listMark items') := by
  simp only [Expr.bind_condition_eq_ok_iff]
  constructor
  · rintro ⟨left', _, hleft, hlist, hcheck, hverify, rfl⟩
    obtain ⟨items', hitems, rfl⟩ := bind_list_eq_ok_iff.mp hlist
    have hcasts := Expr.castsTo_list_iff.mp (Error.bind_ensure_eq_ok_iff.mp hcheck)
    have hverified := (verifyCondition_eq_ok_iff.mp hverify).2 listMark items' rfl rfl
    have hchecked : ∀ b ∈ items', b.castsTo session.dates left'.type = .ok true ∧
        session.verifyComparison left' .equals b m.span scope.mode = .ok () :=
      fun b hb => ⟨hcasts b hb, hverified b hb⟩
    have hall := (List.forall₂_and_left items items').mpr
      ⟨hvalues, forall₂_and_right_iff.mpr ⟨hitems, hchecked⟩⟩
    refine ⟨left', items', hleft, hall.imp ?_, rfl⟩
    rintro item b ⟨hvalue, ⟨hbind, -⟩, hcasts, hverified⟩
    exact ⟨hbind, hcasts,
      (verifyComparison_iff_forall (Expr.isValue_of_bind hvalue hbind)).mp hverified⟩
  · rintro ⟨left', items', hleft, hitems, rfl⟩
    have hall := (List.forall₂_and_left items items').mpr ⟨hvalues, hitems⟩
    have haccepted : List.Forall₂ (fun item b => ((item.bind session.schema
          (scope.withField left')).toExcept = .ok b ∧ Expr.ensureConst b = .ok ()) ∧
        b.castsTo session.dates left'.type = .ok true ∧
        session.verifyComparison left' .equals b m.span scope.mode = .ok ()) items items' := by
      refine hall.imp ?_
      rintro item b ⟨hvalue, hbind, hcasts, hverified⟩
      have hconst := (Bool.and_eq_true_iff.mp (Expr.isValue_of_bind hvalue hbind)).2
      exact ⟨⟨hbind, Error.ensure_eq_ok_iff.mpr hconst⟩, hcasts, hverified _⟩
    obtain ⟨hbound, hchecked⟩ := forall₂_and_right_iff.mp haccepted
    obtain ⟨definition, hdefinition, -⟩ :=
      definition_of_resolved (FieldRef.resolved_of_bind hleft)
    have hcomparison : session.verifyComparison left' .oneOf (.list listMark items') m.span
        scope.mode = .ok () :=
      (verifyComparison_eq_ok_iff (by simp)).mpr
        ⟨by decide, definition, hdefinition, fun hop => absurd rfl hop⟩
    refine ⟨left', _, hleft, bind_list_eq_ok_iff.mpr ⟨items', hbound, rfl⟩, ?_, ?_, rfl⟩
    · exact Error.bind_ensure_eq_ok_iff.mpr
        (Expr.castsTo_list_iff.mpr fun b hb => (hchecked b hb).1)
    · refine verifyCondition_eq_ok_iff.mpr ⟨hcomparison, ?_⟩
      rintro _ _ - ⟨⟩ b hb
      exact (hchecked b hb).2

theorem toExcept_bind_junction (m : Mark) (connective : Connective) (es : List Expr) :
    ((Expr.junction m connective es).bind session.schema scope).toExcept =
      (Expr.bindAll session.schema scope Expr.ensureBoolean es).toExcept.map
        (.junction m connective) :=
  Attempt.toExcept_map_check _ fun _ => rfl

theorem bind_junction_eq_ok_iff {m : Mark} {connective : Connective} {es : List Expr}
    {bound : Expr} :
    ((Expr.junction m connective es).bind session.schema scope).toExcept = .ok bound ↔
      ∃ es', List.Forall₂ (fun e b => (e.bind session.schema scope).toExcept = .ok b ∧
        Expr.ensureBoolean b = .ok ()) es es' ∧ Expr.junction m connective es' = bound := by
  simp only [toExcept_bind_junction, map_eq_ok_iff, Expr.bindAll_eq_ok_iff]

section Items

variable {left left' : FieldRef} {items es : List Expr}

/-- Where the values are accepted, so are the comparisons with them. -/
theorem exists_asserted (hleft : (left.bind session.schema scope).toExcept = .ok left')
    (hvalues : ∀ item ∈ items, item.isValue = true)
    (hasserts : List.Forall₂ (Expr.Asserts left) items es) {items' : List Expr}
    (hitems : List.Forall₂ (session.Accepts scope left') items items') :
    ∃ es', List.Forall₂ (fun e b => (e.bind session.schema scope).toExcept = .ok b ∧
        Expr.ensureBoolean b = .ok ()) es es' ∧
      List.Forall₂ (Expr.Asserts left') items' es' := by
  induction hasserts generalizing items' with
  | nil =>
      cases hitems
      exact ⟨[], .nil, .nil⟩
  | cons hfirst _ ih =>
      obtain ⟨m, rfl⟩ := hfirst
      obtain ⟨hvalue, hvalues⟩ := List.forall_mem_cons.mp hvalues
      obtain ⟨item', others, haccepts, hothers, rfl⟩ := List.forall₂_cons_left_iff.mp hitems
      obtain ⟨es', hbound, hasserts⟩ := ih hvalues hothers
      have hfirst := (bind_equals_eq_ok_iff (m := m) hvalue).mpr
        ⟨left', item', hleft, haccepts, rfl⟩
      exact ⟨_, .cons ⟨hfirst, rfl⟩ hbound, .cons ⟨m, rfl⟩ hasserts⟩

/-- Where the comparisons are accepted, so are their values. -/
theorem exists_accepted (hleft : (left.bind session.schema scope).toExcept = .ok left')
    (hvalues : ∀ item ∈ items, item.isValue = true)
    (hasserts : List.Forall₂ (Expr.Asserts left) items es) {es' : List Expr}
    (hbound : List.Forall₂ (fun e b => (e.bind session.schema scope).toExcept = .ok b ∧
      Expr.ensureBoolean b = .ok ()) es es') :
    ∃ items', List.Forall₂ (session.Accepts scope left') items items' := by
  induction hasserts generalizing es' with
  | nil => exact ⟨[], .nil⟩
  | cons hfirst _ ih =>
      obtain ⟨m, rfl⟩ := hfirst
      obtain ⟨hvalue, hvalues⟩ := List.forall_mem_cons.mp hvalues
      obtain ⟨b, others, ⟨hbind, -⟩, hothers, rfl⟩ := List.forall₂_cons_left_iff.mp hbound
      obtain ⟨items', hitems⟩ := ih hvalues hothers
      obtain ⟨found, item', hfound, haccepts, -⟩ := (bind_equals_eq_ok_iff hvalue).mp hbind
      cases Except.ok.inj (hfound.symm.trans hleft)
      exact ⟨_, .cons haccepts hitems⟩

end Items

theorem isValue_of_accepts {left : FieldRef} {items items' : List Expr}
    (hvalues : ∀ item ∈ items, item.isValue = true)
    (hitems : List.Forall₂ (session.Accepts scope left) items items') :
    ∀ item ∈ items', item.isValue = true := by
  have hall := (List.forall₂_and_left items items').mpr ⟨hvalues, hitems⟩
  refine (forall₂_and_right_iff.mp (hall.imp (S := fun item item' =>
    session.Accepts scope left item item' ∧ item'.isValue = true) ?_)).2
  rintro item item' ⟨hvalue, haccepts⟩
  exact ⟨haccepts, Expr.isValue_of_bind hvalue haccepts.bind⟩

theorem matches_check_boolean {x y : Attempt Expr}
    (h : Matches Expr.SpelledOut x.toExcept y.toExcept) :
    Matches Expr.SpelledOut (x.check Expr.ensureBoolean).toExcept
      (y.check Expr.ensureBoolean).toExcept := by
  rw [Attempt.toExcept_check, Attempt.toExcept_check]
  refine h.bind fun e e' he => ?_
  obtain ⟨htype, htype'⟩ := he.dataType_eq
  rw [(Expr.ensureBoolean_eq_ok_iff (u := ())).mpr htype,
    (Expr.ensureBoolean_eq_ok_iff (u := ())).mpr htype']
  exact .ok he

theorem toExcept_bind_not (m : Mark) (e : Expr) :
    ((Expr.not m e).bind session.schema scope).toExcept = (do
      let bound ← ((e.bind session.schema scope).check Expr.ensureBoolean).toExcept
      return .not m bound) :=
  Attempt.toExcept_map_check _ fun _ => rfl

/-- The operands of a connective are resolved in turn. -/
theorem toExcept_bind_junction_append (m : Mark) (connective : Connective)
    (before after : List Expr) (e : Expr) :
    ((Expr.junction m connective (before ++ e :: after)).bind session.schema scope).toExcept = (do
      let before ← (Expr.bindAll session.schema scope Expr.ensureBoolean before).toExcept
      let bound ← ((e.bind session.schema scope).check Expr.ensureBoolean).toExcept
      let after ← (Expr.bindAll session.schema scope Expr.ensureBoolean after).toExcept
      return .junction m connective (before ++ bound :: after)) := by
  rw [toExcept_bind_junction, Expr.toExcept_bindAll_append, Expr.toExcept_bindAll_cons]
  generalize (Expr.bindAll session.schema scope Expr.ensureBoolean before).toExcept = x
  generalize ((e.bind session.schema scope).check Expr.ensureBoolean).toExcept = y
  generalize (Expr.bindAll session.schema scope Expr.ensureBoolean after).toExcept = z
  cases x <;> cases y <;> cases z <;> rfl

/-- An expression is accepted with a list just when it is with the list spelled out. -/
theorem matches_bind {e e' : Expr} (h : e.SpelledOut e') :
    Matches Expr.SpelledOut (e.bind session.schema scope).toExcept
      (e'.bind session.schema scope).toExcept := by
  induction h with
  | @one m listMark m' left item hdirection hvalue =>
      have hvalues : ∀ e ∈ [item], e.isValue = true := by simpa using hvalue
      refine .of_success (fun b hb => ?_) fun b hb => ?_
      · obtain ⟨left', items', hleft, hitems, rfl⟩ := (bind_oneOf_eq_ok_iff hvalues).mp hb
        obtain ⟨item', _, haccepts, hnil, rfl⟩ := List.forall₂_cons_left_iff.mp hitems
        cases hnil
        refine ⟨_, (bind_equals_eq_ok_iff hvalue).mpr ⟨left', item', hleft, haccepts, rfl⟩, ?_⟩
        exact .one ((direction_of_bind hleft).trans hdirection)
          (Expr.isValue_of_bind hvalue haccepts.bind)
      · obtain ⟨left', item', hleft, haccepts, rfl⟩ := (bind_equals_eq_ok_iff hvalue).mp hb
        exact ⟨_, (bind_oneOf_eq_ok_iff hvalues).mpr
          ⟨left', [item'], hleft, .cons haccepts .nil, rfl⟩⟩
  | @many m listMark m' left items es hdirection hvalues hmany hasserts =>
      refine .of_success (fun b hb => ?_) fun b hb => ?_
      · obtain ⟨left', items', hleft, hitems, rfl⟩ := (bind_oneOf_eq_ok_iff hvalues).mp hb
        obtain ⟨es', hbound, hasserts'⟩ := exists_asserted hleft hvalues hasserts hitems
        refine ⟨_, bind_junction_eq_ok_iff.mpr ⟨es', hbound, rfl⟩, ?_⟩
        exact .many ((direction_of_bind hleft).trans hdirection)
          (isValue_of_accepts hvalues hitems) (hitems.length_eq ▸ hmany) hasserts'
      · obtain ⟨es', hbound, rfl⟩ := bind_junction_eq_ok_iff.mp hb
        obtain ⟨left', hleft⟩ : ∃ left', (left.bind session.schema scope).toExcept = .ok left' := by
          cases hasserts with
          | nil => cases hmany
          | cons hfirst _ =>
              obtain ⟨m, rfl⟩ := hfirst
              obtain ⟨b, _, ⟨hbind, -⟩, -⟩ := List.forall₂_cons_left_iff.mp hbound
              obtain ⟨left', _, hleft, -⟩ :=
                (bind_equals_eq_ok_iff (hvalues _ List.mem_cons_self)).mp hbind
              exact ⟨left', hleft⟩
        obtain ⟨items', hitems⟩ := exists_accepted hleft hvalues hasserts hbound
        exact ⟨_, (bind_oneOf_eq_ok_iff hvalues).mpr ⟨left', items', hleft, hitems, rfl⟩⟩
  | not h ih =>
      rw [toExcept_bind_not, toExcept_bind_not]
      exact (matches_check_boolean ih).bind fun _ _ hbound => .ok (.not hbound)
  | junction h ih =>
      rw [toExcept_bind_junction_append, toExcept_bind_junction_append]
      refine .bind_refl _ fun before _ => (matches_check_boolean ih).bind fun _ _ hbound => ?_
      exact .bind_refl _ fun after _ => .ok (.junction hbound)

end Session

end TrackerQuery

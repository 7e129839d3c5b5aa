import TrackerQuery.Compile
import TrackerQuery.Proofs.Alike
import TrackerQuery.Proofs.Lockstep
import TrackerQuery.Proofs.Resolving

/-!
# Resolving alike queries

Alike queries are resolved to queries about the same fields, or refused in the same way:
every rule looks at the definition of a field, at the values a field is compared with and
at the mode of the query, and at no name or place.
-/

namespace TrackerQuery.Session

variable {session : Session}

/-! ## Names -/

theorem agree_definition {a b : FieldRef} (hid : a.id = b.id) :
    Agree Eq (session.definition a) (session.definition b) := by
  unfold definition definition?
  rw [hid]
  cases b.id.bind session.catalog.fieldById? with
  | none => exact .located ..
  | some definition => exact .ok rfl

/-- The qualifier of a field depends on the field and the mode only. -/
theorem agree_qualifier {a b : FieldRef} {table table' : Option TableRef} (hid : a.id = b.id)
    (hqualifier : a.qualifier.map Text.asciiLowercase = b.qualifier.map Text.asciiLowercase)
    (hmode : (table.map TableRef.mode).getD .unknown = (table'.map TableRef.mode).getD .unknown) :
    Agree Eq (session.qualifier a table) (session.qualifier b table') := by
  unfold qualifier
  refine (agree_definition hid).bind_eq fun definition => ?_
  rw [hmode]
  refine .ite (fun _ => ?_) fun _ => ?_
  · have hnone : a.qualifier.isNone = b.qualifier.isNone := by
      simpa using congrArg Option.isNone hqualifier
    rw [hnone]
    exact .ensure_located_bind (.refl _)
  · cases ha : a.qualifier with
    | none =>
        cases hb : b.qualifier with
        | none => exact .refl _
        | some name => simp [ha, hb] at hqualifier
    | some name =>
        cases hb : b.qualifier with
        | none => simp [ha, hb] at hqualifier
        | some name' =>
            have hsame : Text.asciiLowercase name = Text.asciiLowercase name' := by
              simpa [ha, hb] using hqualifier
            simp only [Text.sameIgnoringCase_congr hsame]
            exact .ite (fun _ => .refl _) fun _ => .ite (fun _ => .refl _) fun _ => .located ..

theorem agree_bindField {before after : FieldRef → FieldRef → Prop}
    (hcarried : FieldRef.Carried session.catalog before after) {a b : FieldRef}
    {scope scope' : Scope} (hscope : scope.Alike scope') (h : before a b) :
    Agree after (a.bind session.schema scope).toExcept
      (b.bind session.schema scope').toExcept := by
  have halike := hcarried.alike h
  have hname : session.schema.findField a.name = session.schema.findField b.name := halike.name
  rw [FieldRef.toExcept_bind, FieldRef.toExcept_bind, hname]
  cases session.schema.findField b.name with
  | none => exact .located ..
  | some id =>
      dsimp only
      refine Follows.map (agree_qualifier rfl halike.qualifier hscope.mode) ?_
      rintro qualifier _ rfl
      exact hcarried.resolve h (some id) _ qualifier

/-! ## Rules -/

section Rules

variable {left left' other other' : FieldRef} {right right' : Expr} {span span' : Span}
variable {definition : FieldDefinition} {op : Comparison} {mode : QueryMode}

theorem agree_verifyFieldComparison (hleft : left.Same session.catalog left')
    (hother : other.Same session.catalog other') :
    Agree Eq (session.verifyFieldComparison definition left other span mode)
      (session.verifyFieldComparison definition left' other' span' mode) := by
  unfold verifyFieldComparison
  refine Follows.bind_eq (.refl _) fun _ => .ite (fun _ => ?_) fun _ => ?_
  · rw [hleft.qualifierText_eq, hother.qualifierText_eq]
    exact .ensure_located_bind ((agree_definition hother.id).bind_eq fun _ => .ensure_located)
  · exact (agree_definition hother.id).bind_eq fun _ => .ensure_located

theorem agree_verifyTreePath (hright : right.Same session.catalog right') :
    Agree Eq (session.verifyTreePath definition op right span)
      (session.verifyTreePath definition op right' span') := by
  unfold verifyTreePath
  rw [hright.dataType_eq, hright.literal?_eq]
  refine .ensure_located_bind (.ensure_located_bind ?_)
  cases right'.literal? with
  | none => exact .refl _
  | some path =>
      exact .ite (fun _ => .refl _) fun _ => .ensure_located_bind .ensure_located

theorem agree_verifyLongText (hright : right.Same session.catalog right') :
    Agree Eq (verifyLongText op right span) (verifyLongText op right' span') := by
  unfold verifyLongText
  rw [hright.literal?_eq]
  cases right'.literal? with
  | none => exact .refl _
  | some pattern => exact .ensure_located_bind .ensure_located

theorem agree_verifyProject (hright : right.Same session.catalog right') :
    Agree Eq (session.verifyProject op right span) (session.verifyProject op right' span') := by
  unfold verifyProject
  rw [hright.literal?_eq]
  refine .ensure_located_bind ?_
  cases right'.literal? with
  | none => exact .refl _
  | some project =>
      exact .ite (fun _ => .refl _) fun _ => .ensure_located_bind .ensure_located

theorem agree_verifyLinkType (hright : right.Same session.catalog right') :
    Agree Eq (session.verifyLinkType op right span mode)
      (session.verifyLinkType op right' span' mode) := by
  unfold verifyLinkType
  rw [hright.literal?_eq]
  refine .ensure_located_bind ?_
  cases right'.literal? with
  | none => exact .refl _
  | some name =>
      refine .ite (fun _ => .refl _) fun _ => ?_
      cases session.catalog.linkTypeEnd? name with
      | none => exact .located ..
      | some linkEnd => exact .ite (fun _ => .ensure_located) fun _ => .refl _

theorem agree_verifyInteger (hright : right.Same session.catalog right') :
    Agree Eq (verifyInteger right) (verifyInteger right') := by
  unfold verifyInteger
  rw [hright.literal?_eq]
  cases right'.literal? with
  | none => exact .refl _
  | some value => exact .ensure_located

theorem agree_verifyByField (hright : right.Same session.catalog right') :
    Agree Eq (session.verifyByField definition op right span mode)
      (session.verifyByField definition op right' span' mode) :=
  .ite (fun _ => agree_verifyTreePath hright) fun _ =>
  .ite (fun _ => agree_verifyLongText hright) fun _ =>
  .ite (fun _ => agree_verifyProject hright) fun _ =>
  .ite (fun _ => agree_verifyLinkType hright) fun _ =>
  .ite (fun _ => agree_verifyInteger hright) fun _ => .refl _

theorem agree_verifyValue (hright : right.Same session.catalog right') :
    Agree Eq (session.verifyValue definition left op right span mode)
      (session.verifyValue definition left' op right' span' mode) := by
  unfold verifyValue
  rw [hright.literal?_eq]
  refine .ite (fun _ => Follows.bind_eq (.refl _) fun _ => ?_) fun _ => ?_
  all_goals
    refine .ite (fun _ => .ensure_located_bind ?_) fun _ => ?_
    all_goals
      refine (agree_verifyByField hright).bind_eq fun _ => ?_
      exact .ite (fun _ => .ensure_located) fun _ => .refl _

theorem agree_verifyComparison (hleft : left.Same session.catalog left')
    (hright : right.Same session.catalog right') :
    Agree Eq (session.verifyComparison left op right span mode)
      (session.verifyComparison left' op right' span' mode) := by
  refine .ensure_located_bind ((agree_definition hleft.id).bind_eq fun definition => ?_)
  have hvalue : Agree Eq (session.verifyValue definition left op right span mode)
      (session.verifyValue definition left' op right' span' mode) := agree_verifyValue hright
  cases hright with
  | field hother => exact agree_verifyFieldComparison hleft hother
  | _ => exact .ite (fun _ => .refl _) fun _ => hvalue

theorem agree_verifyCondition (hleft : left.Same session.catalog left')
    (hright : right.Same session.catalog right') :
    Agree Eq (session.verifyCondition left op right span mode)
      (session.verifyCondition left' op right' span' mode) := by
  refine (agree_verifyComparison hleft hright).bind_eq fun _ => ?_
  cases hright with
  | list hitems =>
      cases op with
      | oneOf => exact .forEach hitems fun _ _ hitem => agree_verifyComparison hleft hitem
      | _ => exact .refl _
  | _ => cases op <;> exact .refl _

theorem agree_verifyEver {operand operand' : Expr} (h : operand.Same session.catalog operand') :
    Agree Eq (session.verifyEver operand span) (session.verifyEver operand' span') := by
  cases h with
  | condition hleft hright =>
      unfold verifyEver
      dsimp only
      rw [hleft.type, hright.literal?_eq]
      refine .ensure_located_bind (.ite (fun _ => .ensure_located_bind ?_) fun _ => ?_)
      all_goals exact (agree_definition hleft.id).bind_eq fun _ => .ensure_located
  | _ => exact .located ..

theorem agree_verifyArithmetic {left left' : Expr} (hleft : left.Same session.catalog left')
    (hright : right.Same session.catalog right') :
    Agree Eq (session.verifyArithmetic left right span)
      (session.verifyArithmetic left' right' span') := by
  unfold verifyArithmetic
  rw [hleft.castsTo_eq, hleft.castsTo_eq, hright.dataType_eq]
  exact (Follows.refl _).bind_eq fun _ => .ensure_located_bind .ensure_located

theorem agree_verifyExpr {scope scope' : Scope} {e e' : Expr} (hscope : scope.Alike scope')
    (h : e.Same session.catalog e') :
    Agree Eq (session.verifyExpr scope e) (session.verifyExpr scope' e') := by
  cases h with
  | condition hleft hright =>
      unfold verifyExpr
      rw [hscope.mode]
      exact agree_verifyCondition hleft hright
  | ever hoperand => exact agree_verifyEver hoperand
  | arithmetic hleft hright => exact agree_verifyArithmetic hleft hright
  | _ => exact .refl _

theorem agree_ensureConst {e e' : Expr} (h : e.Same session.catalog e') :
    Agree Eq e.ensureConst e'.ensureConst := by
  unfold Expr.ensureConst
  rw [h.isConst_eq]
  exact .ensure_located

theorem agree_ensureBoolean {e e' : Expr} (h : e.Same session.catalog e') :
    Agree Eq e.ensureBoolean e'.ensureBoolean := by
  unfold Expr.ensureBoolean
  rw [h.dataType_eq]
  exact .ensure_located

theorem agree_checkRight (hleft : left.Same session.catalog left')
    (hright : right.Same session.catalog right') :
    Agree Eq (right.checkRight session.schema op left)
      (right'.checkRight session.schema op left') := by
  have hconst := agree_ensureConst hright
  have hcasts := hright.castsTo_eq session.schema.dates
  unfold Expr.checkRight
  cases hright with
  | field hother =>
      dsimp only
      rw [hother.type, hleft.type]
      exact .ensure_located
  | list hitems =>
      dsimp only
      rw [hcasts, hleft.type]
      exact (Follows.refl _).bind_eq fun _ => .ensure_located
  | _ =>
      dsimp only
      rw [hcasts, hleft.type]
      exact hconst.bind_eq fun _ => (Follows.refl _).bind_eq fun _ => .ensure_located

end Rules

/-! ## Expressions -/

section Carried

variable {before after : FieldRef → FieldRef → Prop}
variable (hcarried : FieldRef.Carried session.catalog before after)
include hcarried

theorem same_of_alike {e e' : Expr} (h : e.Alike after e') : e.Same session.catalog e' :=
  h.imp fun _ _ => hcarried.same

theorem agree_bind_of_bindParts {scope scope' : Scope} {e e' : Expr} (hscope : scope.Alike scope')
    (hparts : Agree (Expr.Alike after) (e.bindParts session.schema scope).toExcept
      (e'.bindParts session.schema scope').toExcept) :
    Agree (Expr.Alike after) (e.bind session.schema scope).toExcept
      (e'.bind session.schema scope').toExcept :=
  hparts.check fun _ _ h => agree_verifyExpr hscope (same_of_alike hcarried h)

theorem agree_bindAll {scope scope' : Scope} {test : Expr → Except Error Unit}
    {es es' : List Expr} (hscope : scope.Alike scope')
    (htest : ∀ e e', e.Same session.catalog e' → Agree Eq (test e) (test e'))
    (hparts : List.Forall₂ (fun e e' => Agree (Expr.Alike after)
      (e.bindParts session.schema scope).toExcept (e'.bindParts session.schema scope').toExcept)
      es es') :
    Agree (List.Forall₂ (Expr.Alike after))
      (Expr.bindAll session.schema scope test es).toExcept
      (Expr.bindAll session.schema scope' test es').toExcept := by
  induction hparts with
  | nil => exact .ok .nil
  | cons hfirst _ ih =>
      rw [Expr.toExcept_bindAll_cons, Expr.toExcept_bindAll_cons]
      refine ((agree_bind_of_bindParts hcarried hscope hfirst).check fun e e' h =>
        htest e e' (same_of_alike hcarried h)).bind fun _ _ hbound => ?_
      exact ih.map fun _ _ => .cons hbound

/-- Alike expressions have alike parts once they are resolved. -/
theorem agree_bindParts {scope scope' : Scope} {e e' : Expr} (hscope : scope.Alike scope')
    (h : e.Alike before e') :
    Agree (Expr.Alike after) (e.bindParts session.schema scope).toExcept
      (e'.bindParts session.schema scope').toExcept := by
  induction h generalizing scope scope' with
  | string => exact .ok .string
  | number => exact .ok .number
  | boolean => exact .ok .boolean
  | truth => exact .ok .truth
  | @var m m' v =>
      unfold Expr.bindParts Expr.bindVariable
      cases session.schema.findVariable v.name with
      | none => exact .located ..
      | some target => exact .ok .var
  | field hfield => exact (agree_bindField hcarried hscope hfield).attempt_map fun _ _ => .field
  | list hitems ih =>
      have hparts := (Expr.forall₂_of_exists_alike ih).imp fun _ _ h => h hscope
      exact (agree_bindAll hcarried hscope (fun _ _ => agree_ensureConst) hparts).attempt_map
        fun _ _ => .list
  | condition hleft hright ih =>
      rw [Expr.toExcept_bindParts_condition, Expr.toExcept_bindParts_condition]
      refine (agree_bindField hcarried hscope hleft).bind fun left left' hleft => ?_
      have hsame := hcarried.same hleft
      have hinner := hscope.withField hsame
      refine ((agree_bind_of_bindParts hcarried hinner (ih hinner)).check fun _ _ hright =>
        agree_checkRight hsame (same_of_alike hcarried hright)).bind fun _ _ hright => ?_
      exact .ok (.condition hleft hright)
  | arithmetic hleft hright ihleft ihright =>
      rw [Expr.toExcept_bindParts_arithmetic, Expr.toExcept_bindParts_arithmetic]
      refine (agree_bind_of_bindParts hcarried hscope (ihleft hscope)).bind
        fun left left' hleft => ?_
      refine (agree_bind_of_bindParts hcarried hscope (ihright hscope)).bind
        fun right right' hright => ?_
      have hsame := same_of_alike hcarried hleft
      have htype : Expr.arithmeticType scope left = Expr.arithmeticType scope' left' := by
        unfold Expr.arithmeticType
        rw [hscope.fieldType, hsame.dataType_eq]
      rw [hsame.isConst_eq, (same_of_alike hcarried hright).isConst_eq, htype]
      exact .ensure_located_bind (.ok (.arithmetic hleft hright))
  | junction hoperands ih =>
      have hparts := (Expr.forall₂_of_exists_alike ih).imp fun _ _ h => h hscope
      exact (agree_bindAll hcarried hscope (fun _ _ => agree_ensureBoolean) hparts).attempt_map
        fun _ _ => .junction
  | not hoperand ih =>
      have hbound := agree_bind_of_bindParts hcarried hscope (ih hscope)
      exact (hbound.check fun _ _ h =>
        agree_ensureBoolean (same_of_alike hcarried h)).attempt_map fun _ _ => .not
  | ever hoperand ih =>
      have hbound := agree_bind_of_bindParts hcarried hscope (ih hscope)
      exact (hbound.check fun _ _ h =>
        agree_ensureBoolean (same_of_alike hcarried h)).attempt_map fun _ _ => .ever

theorem agree_bind {scope scope' : Scope} {e e' : Expr} (hscope : scope.Alike scope')
    (h : e.Alike before e') :
    Agree (Expr.Alike after) (e.bind session.schema scope).toExcept
      (e'.bind session.schema scope').toExcept :=
  agree_bind_of_bindParts hcarried hscope (agree_bindParts hcarried hscope h)

theorem agree_bindFilter {scope scope' : Scope} {filter filter' : Expr}
    (hscope : scope.Alike scope') (h : filter.Alike before filter') :
    Agree (Expr.Alike after) (Select.bindFilter session.schema scope filter)
      (Select.bindFilter session.schema scope' filter') :=
  (agree_bind hcarried hscope h).bind fun _ _ hbound =>
    (agree_ensureBoolean (same_of_alike hcarried hbound)).bind_eq fun _ => .ok hbound

theorem agree_bindMoment {scope scope' : Scope} {moment moment' : Expr}
    (hscope : scope.Alike scope') (h : moment.Alike before moment') :
    Agree (Expr.Alike after) (Select.bindMoment session.schema scope moment)
      (Select.bindMoment session.schema scope' moment') := by
  refine (agree_bind hcarried hscope h).bind fun bound bound' hbound => ?_
  rw [(same_of_alike hcarried hbound).castsTo_eq]
  exact (Follows.refl _).bind_eq fun _ => .ensure_located_bind (.ok hbound)

/-! ## Lists of fields -/

theorem agree_bindFields {scope scope' : Scope} {fields fields' : List FieldRef}
    (hscope : scope.Alike scope') (h : List.Forall₂ before fields fields') :
    Agree (List.Forall₂ after)
      (Attempt.list fields (FieldRef.bind session.schema scope)).toExcept
      (Attempt.list fields' (FieldRef.bind session.schema scope')).toExcept := by
  induction h with
  | nil => exact .ok .nil
  | cons hfirst _ ih =>
      rw [Attempt.toExcept_list_cons, Attempt.toExcept_list_cons]
      exact (agree_bindField hcarried hscope hfirst).bind fun _ _ hbound =>
        ih.map fun _ _ => .cons hbound

end Carried

theorem any_id_eq {fields fields' : List FieldRef}
    (h : List.Forall₂ (FieldRef.Same session.catalog) fields fields') (id : Option Int) :
    fields.any (·.id == id) = fields'.any (·.id == id) := by
  induction h with
  | nil => rfl
  | cons hfirst _ ih => rw [List.any_cons, List.any_cons, hfirst.id, ih]

theorem agree_verifyOrdering {earlier earlier' fields fields' : List FieldRef}
    (hearlier : List.Forall₂ (FieldRef.Same session.catalog) earlier earlier')
    (h : List.Forall₂ (FieldRef.Same session.catalog) fields fields') :
    Agree Eq (session.verifyOrdering earlier fields) (session.verifyOrdering earlier' fields') := by
  induction h generalizing earlier earlier' with
  | nil => exact .refl _
  | cons hfield _ ih =>
      unfold verifyOrdering
      rw [any_id_eq hearlier, hfield.id]
      refine (agree_definition hfield.id).bind_eq fun definition => ?_
      refine .ensure_located_bind (.ensure_located_bind (.ensure_located_bind ?_))
      exact ih (List.rel_append hearlier (.cons hfield .nil))

theorem agree_verifyColumns {fields fields' : List FieldRef}
    (h : List.Forall₂ (FieldRef.Same session.catalog) fields fields') :
    Agree Eq (session.verifyColumns fields) (session.verifyColumns fields') := by
  have hloop : ∀ fields, session.verifyColumns fields = (do
      for field in fields do
        session.definition field >>= fun definition =>
          Error.ensure definition.queryable (.located .nonQueryableField field.span)) := by
    simp only [verifyColumns, bind_assoc, implies_true]
  rw [hloop, hloop]
  exact .forEach h fun _ _ hfield => (agree_definition hfield.id).bind_eq fun _ => .ensure_located

theorem agree_verifyFields {list list' : FieldList}
    (h : list.Alike (FieldRef.Same session.catalog) list') :
    Agree Eq (session.verifyFields list) (session.verifyFields list') := by
  unfold verifyFields
  rw [h.kind]
  cases list'.kind with
  | select => exact agree_verifyColumns h.fields
  | order => exact agree_verifyOrdering .nil h.fields
  | group => exact .refl _

theorem agree_bindFieldList {before after : FieldRef → FieldRef → Prop}
    (hcarried : FieldRef.Carried session.catalog before after) {scope scope' : Scope}
    {list list' : FieldList} (hscope : scope.Alike scope') (h : list.Alike before list') :
    Agree (FieldList.Alike after) (list.bind session.schema scope)
      (list'.bind session.schema scope') := by
  refine (agree_bindFields hcarried hscope h.fields).bind fun fields fields' hfields => ?_
  have hverify : Agree Eq (session.verifyFields { list with fields })
      (session.verifyFields { list' with fields := fields' }) :=
    agree_verifyFields ⟨h.kind, hfields.imp fun _ _ => hcarried.same⟩
  exact hverify.bind_eq fun _ => .ok ⟨h.kind, hfields⟩

/-! ## Queries -/

theorem addAll_eq {items items' : List ModeItem} {flags : ModeFlags}
    (h : List.Forall₂ (fun item item' : ModeItem =>
      Text.asciiLowercase item.name = Text.asciiLowercase item'.name) items items') :
    items.foldlM (fun flags item => flags.add? item.name) flags =
      items'.foldlM (fun flags item => flags.add? item.name) flags := by
  induction h generalizing flags with
  | nil => rfl
  | cons hitem _ ih =>
      rw [List.foldlM_cons, List.foldlM_cons, ModeFlags.add?, ModeFlags.add?, hitem]
      exact congrArg _ (funext fun _ => ih)

theorem agree_refined {name name' : String} {modes modes' : ModeList}
    (hname : QueryMode.ofTable name = QueryMode.ofTable name') (hmodes : modes.Alike modes') :
    Agree Eq (QueryMode.refined name modes) (QueryMode.refined name' modes') := by
  unfold QueryMode.refined
  rw [hname, addAll_eq hmodes]
  exact .ensure_located_bind (.refl _)

/-- Alike tables have the same mode. -/
theorem agree_bindTable {query query' : Select}
    (htable : Option.Rel TableRef.Alike query.table query'.table)
    (hmodes : Option.Rel ModeList.Alike query.modes query'.modes) :
    Agree TableRef.Alike (query.bindTable session.schema) (query'.bindTable session.schema) := by
  unfold Select.bindTable
  generalize query.table = table at htable ⊢
  generalize query'.table = table' at htable ⊢
  generalize query.modes = modes at hmodes ⊢
  generalize query'.modes = modes' at hmodes ⊢
  cases htable with
  | none => exact .located ..
  | @some table table' htable =>
      have hfound : session.schema.findTable table.name = session.schema.findTable table'.name := by
        show session.findTable table.name = session.findTable table'.name
        rw [findTable, findTable, htable.name]
      have hbound : Agree TableRef.Alike (table.bind session.schema)
          (table'.bind session.schema) := by
        unfold TableRef.bind
        rw [hfound]
        refine Follows.bind_eq (.refl _) fun mode => ?_
        cases mode with
        | none => exact .located ..
        | some mode => exact .ok ⟨htable.name, rfl⟩
      refine hbound.bind fun table table' htable => ?_
      cases hmodes with
      | none => exact .ok htable
      | some hmodes =>
          refine (agree_refined htable.name hmodes).bind_eq fun mode => ?_
          exact .ensure_located_bind (.ok ⟨htable.name, rfl⟩)

/-- The checks of a whole query depend on its mode and its clauses only. -/
theorem agree_verifyQuery {query query' : Select} {R : FieldRef → FieldRef → Prop}
    (h : query.Alike R query') : Agree Eq (verifyQuery query) (verifyQuery query') := by
  obtain ⟨-, htable, -, hgrouping, -, hasOf, -⟩ := h
  unfold verifyQuery
  generalize query.table = table at htable ⊢
  generalize query'.table = table' at htable ⊢
  generalize query.grouping = grouping at hgrouping ⊢
  generalize query'.grouping = grouping' at hgrouping ⊢
  generalize query.asOf = asOf at hasOf ⊢
  generalize query'.asOf = asOf' at hasOf ⊢
  cases htable with
  | none => exact .located ..
  | @some table table' htable =>
      simp only [Option.filter_some, htable.resolved]
      cases table'.resolved.isSome with
      | false => exact .located ..
      | true =>
          cases hgrouping with
          | some hgrouping => exact .located ..
          | none =>
              cases hasOf with
              | none => exact .refl _
              | some hasOf =>
                  simp only [reduceIte, htable.mode_eq]
                  exact .ensure_located

/-- Alike queries are resolved to alike ones. -/
theorem agree_bindQuery {before after : FieldRef → FieldRef → Prop}
    (hcarried : FieldRef.Carried session.catalog before after) {query query' : Select}
    (h : query.Alike before query') :
    Agree (Select.Alike after) (session.bind query) (session.bind query') := by
  unfold Session.bind
  rw [Select.bind_eq, Select.bind_eq]
  refine (agree_bindTable h.table h.modes).bind fun table table' htable => ?_
  have hscope : Scope.Alike { table := some table } { table := some table' } :=
    ⟨htable.mode_eq, rfl⟩
  have hlist : ∀ list list' : FieldList, list.Alike before list' → _ :=
    fun _ _ => agree_bindFieldList hcarried hscope
  refine (Follows.onClause h.columns hlist).bind fun columns columns' hcolumns => ?_
  refine (Follows.onClause h.filter fun _ _ => agree_bindFilter hcarried hscope).bind
    fun filter filter' hfilter => ?_
  refine (Follows.onClause h.grouping hlist).bind fun grouping grouping' hgrouping => ?_
  refine (Follows.onClause h.ordering hlist).bind fun ordering ordering' hordering => ?_
  refine (Follows.onClause h.asOf fun _ _ => agree_bindMoment hcarried hscope).bind
    fun asOf asOf' hasOf => ?_
  have hbound : Select.Alike after
      { query with table := some table, columns, filter, grouping, ordering, asOf }
      { query' with table := some table', columns := columns', filter := filter',
                    grouping := grouping', ordering := ordering', asOf := asOf' } :=
    ⟨hcolumns, .some htable, hfilter, hgrouping, hordering, hasOf, h.modes⟩
  exact (agree_verifyQuery hbound).bind_eq fun _ => .ok hbound

end TrackerQuery.Session

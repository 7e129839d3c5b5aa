import TrackerQuery.Document.Links
import TrackerQuery.Proofs.Rebound
import TrackerQuery.Proofs.Reduction

/-!
# The names in an expression

The fields and macros that an expression mentions, wherever they stand.  In a
resolved expression each of them is resolved; a field then has a definition, the
type of that definition, and the one qualifier that the mode of the query gives
it.
-/

namespace TrackerQuery

def Variable.Resolved (schema : Schema) (v : Variable) : Prop :=
  ∃ found, schema.findVariable v.name = some found ∧ v.target = some found.target ∧
    v.type = schema.variableType found.target

/-- Only the table of a scope matters to a field. -/
theorem FieldRef.Resolved.congr {schema : Schema} {scope scope' : Scope} {field : FieldRef}
    (hfield : field.Resolved schema scope) (htable : scope.table = scope'.table) :
    field.Resolved schema scope' :=
  ⟨hfield.name, htable ▸ hfield.qualifier⟩

namespace Expr

mutual

def fieldRefs : Expr → List FieldRef
  | .field _ f => [f]
  | .condition _ _ left right => left :: right.fieldRefs
  | .list _ items => fieldRefsOfAll items
  | .junction _ _ operands => fieldRefsOfAll operands
  | .not _ operand | .ever _ operand => operand.fieldRefs
  | .arithmetic _ _ left right _ => left.fieldRefs ++ right.fieldRefs
  | _ => []

def fieldRefsOfAll : List Expr → List FieldRef
  | [] => []
  | e :: es => e.fieldRefs ++ fieldRefsOfAll es

end

mutual

def variableRefs : Expr → List Variable
  | .var _ v => [v]
  | .condition _ _ _ right => right.variableRefs
  | .list _ items => variableRefsOfAll items
  | .junction _ _ operands => variableRefsOfAll operands
  | .not _ operand | .ever _ operand => operand.variableRefs
  | .arithmetic _ _ left right _ => left.variableRefs ++ right.variableRefs
  | _ => []

def variableRefsOfAll : List Expr → List Variable
  | [] => []
  | e :: es => e.variableRefs ++ variableRefsOfAll es

end

theorem fieldRefsOfAll_eq_flatMap (es : List Expr) :
    fieldRefsOfAll es = es.flatMap fieldRefs := by
  induction es with
  | nil => rfl
  | cons e es ih => rw [fieldRefsOfAll, ih, List.flatMap_cons]

theorem variableRefsOfAll_eq_flatMap (es : List Expr) :
    variableRefsOfAll es = es.flatMap variableRefs := by
  induction es with
  | nil => rfl
  | cons e es ih => rw [variableRefsOfAll, ih, List.flatMap_cons]

@[simp]
theorem fieldRefs_withMark (m : Mark) (e : Expr) : (e.withMark m).fieldRefs = e.fieldRefs := by
  cases e <;> rfl

@[simp]
theorem variableRefs_withMark (m : Mark) (e : Expr) :
    (e.withMark m).variableRefs = e.variableRefs := by
  cases e <;> rfl

structure NamesResolved (schema : Schema) (table : Option TableRef) (e : Expr) : Prop where
  fields : ∀ field ∈ e.fieldRefs, field.Resolved schema { table }
  variableRefs : ∀ v ∈ e.variableRefs, v.Resolved schema

variable {schema : Schema} {table : Option TableRef}

theorem namesResolved_of_nil {e : Expr} (hfields : e.fieldRefs = [])
    (hvariables : e.variableRefs = []) :
    e.NamesResolved schema table :=
  ⟨by simp [hfields], by simp [hvariables]⟩

theorem namesResolved_list_iff {m : Mark} {items : List Expr} :
    (Expr.list m items).NamesResolved schema table ↔
      ∀ item ∈ items, item.NamesResolved schema table := by
  constructor
  · intro hlist item hitem
    constructor
    · intro field hfield
      apply hlist.fields
      rw [fieldRefs, fieldRefsOfAll_eq_flatMap]
      exact List.mem_flatMap.mpr ⟨item, hitem, hfield⟩
    · intro v hv
      apply hlist.variableRefs
      rw [Expr.variableRefs, variableRefsOfAll_eq_flatMap]
      exact List.mem_flatMap.mpr ⟨item, hitem, hv⟩
  · intro hitems
    constructor
    · intro field hfield
      rw [fieldRefs, fieldRefsOfAll_eq_flatMap] at hfield
      obtain ⟨item, hitem, hfield⟩ := List.mem_flatMap.mp hfield
      exact (hitems item hitem).fields field hfield
    · intro v hv
      rw [Expr.variableRefs, variableRefsOfAll_eq_flatMap] at hv
      obtain ⟨item, hitem, hv⟩ := List.mem_flatMap.mp hv
      exact (hitems item hitem).variableRefs v hv

theorem namesResolved_junction_iff {m : Mark} {connective : Connective} {operands : List Expr} :
    (Expr.junction m connective operands).NamesResolved schema table ↔
      ∀ operand ∈ operands, operand.NamesResolved schema table := by
  rw [← namesResolved_list_iff (m := m)]
  exact ⟨fun h => ⟨h.fields, h.variableRefs⟩, fun h => ⟨h.fields, h.variableRefs⟩⟩

theorem namesResolved_condition_iff {m : Mark} {op : Comparison} {left : FieldRef}
    {right : Expr} :
    (Expr.condition m op left right).NamesResolved schema table ↔
      left.Resolved schema { table } ∧ right.NamesResolved schema table := by
  constructor
  · intro h
    obtain ⟨hleft, hright⟩ := List.forall_mem_cons.mp h.fields
    exact ⟨hleft, hright, h.variableRefs⟩
  · rintro ⟨hleft, hright⟩
    exact ⟨List.forall_mem_cons.mpr ⟨hleft, hright.fields⟩, hright.variableRefs⟩

theorem namesResolved_arithmetic_iff {m : Mark} {op : Arithmetic} {left right : Expr}
    {type : DataType} :
    (Expr.arithmetic m op left right type).NamesResolved schema table ↔
      left.NamesResolved schema table ∧ right.NamesResolved schema table := by
  constructor
  · intro h
    obtain ⟨hfieldsLeft, hfieldsRight⟩ := List.forall_mem_append.mp h.fields
    obtain ⟨hvariablesLeft, hvariablesRight⟩ := List.forall_mem_append.mp h.variableRefs
    exact ⟨⟨hfieldsLeft, hvariablesLeft⟩, ⟨hfieldsRight, hvariablesRight⟩⟩
  · rintro ⟨hleft, hright⟩
    exact ⟨List.forall_mem_append.mpr ⟨hleft.fields, hright.fields⟩,
      List.forall_mem_append.mpr ⟨hleft.variableRefs, hright.variableRefs⟩⟩

theorem namesResolved_withMark {m : Mark} {e : Expr} (he : e.NamesResolved schema table) :
    (e.withMark m).NamesResolved schema table := by
  constructor
  · rw [fieldRefs_withMark]
    exact he.fields
  · rw [variableRefs_withMark]
    exact he.variableRefs

/-- The names in a resolved expression are resolved. -/
theorem namesResolved_of_partsResolved (e : Expr) (scope : Scope)
    (hresolved : e.PartsResolved schema scope) : e.NamesResolved schema scope.table := by
  induction e generalizing scope with
  | string m value | number m value | boolean m value | truth m value =>
      exact namesResolved_of_nil rfl rfl
  | var m v =>
      constructor
      · simp [fieldRefs]
      · intro w hw
        rw [List.mem_singleton.mp hw]
        exact hresolved
  | field m f =>
      constructor
      · intro g hg
        rw [List.mem_singleton.mp hg]
        exact FieldRef.Resolved.congr hresolved rfl
      · simp [Expr.variableRefs]
  | list m items ih =>
      apply namesResolved_list_iff.mpr
      intro item hitem
      exact ih item hitem scope (allResolved_iff.mp hresolved item hitem).1.1
  | condition m op left right ih =>
      obtain ⟨hleft, ⟨hright, -⟩, -⟩ := hresolved
      exact namesResolved_condition_iff.mpr ⟨hleft.congr rfl, ih (scope.withField left) hright⟩
  | arithmetic m op left right type ihleft ihright =>
      obtain ⟨⟨hleft, -⟩, ⟨hright, -⟩, -⟩ := hresolved
      exact namesResolved_arithmetic_iff.mpr ⟨ihleft scope hleft, ihright scope hright⟩
  | junction m connective operands ih =>
      apply namesResolved_junction_iff.mpr
      intro operand hoperand
      exact ih operand hoperand scope (allResolved_iff.mp hresolved operand hoperand).1.1
  | not m operand ih | ever m operand ih =>
      obtain ⟨hfields, hvariables⟩ := ih scope hresolved.1.1
      exact ⟨hfields, hvariables⟩

/-- The qualifiers of an expression are those of its fields. -/
theorem qualifiers_eq_map (e : Expr) : e.qualifiers = e.fieldRefs.map FieldRef.qualifierText := by
  have hall : ∀ es : List Expr,
      (∀ e ∈ es, e.qualifiers = e.fieldRefs.map FieldRef.qualifierText) →
        qualifiersOfAll es = (fieldRefsOfAll es).map FieldRef.qualifierText := by
    intro es hes
    induction es with
    | nil => rfl
    | cons e es ih =>
        obtain ⟨hfirst, hothers⟩ := List.forall_mem_cons.mp hes
        rw [qualifiersOfAll, fieldRefsOfAll, List.map_append, hfirst, ih hothers]
  induction e with
  | list m items ih => exact hall items ih
  | junction m connective operands ih => exact hall operands ih
  | condition m op left right ih => rw [qualifiers, fieldRefs, List.map_cons, ih]
  | arithmetic m op left right type ihleft ihright =>
      rw [qualifiers, fieldRefs, List.map_append, ihleft, ihright]
  | not m operand ih => exact ih
  | ever m operand ih => exact ih
  | _ => rfl

end Expr

namespace Session

variable {session : Session}

/-- The qualifier that a field has in a query of a mode: none but for the work
item fields of a link query. -/
def Qualifies (mode : QueryMode) (definition : FieldDefinition) (qualifier : Option String) :
    Prop :=
  if mode.isLinkQuery = true ∧ definition.isLinkField = false then
    qualifier = some sourceQualifier ∨ qualifier = some targetQualifier
  else qualifier = none

/-- The qualifier that is resolved goes with the mode of the query. -/
theorem qualifies_of_qualifier {field : FieldRef} {table : Option TableRef}
    {qualifier : Option String} (hqualifier : session.qualifier field table = .ok qualifier) :
    ∃ definition, session.definition field = .ok definition ∧
      Qualifies ((table.map TableRef.mode).getD .unknown) definition qualifier := by
  obtain ⟨definition, hdefinition, hqualifier⟩ := bind_eq_ok_iff.mp hqualifier
  refine ⟨definition, hdefinition, ?_⟩
  dsimp only at hqualifier
  unfold Qualifies
  split at hqualifier
  · rename_i hplain
    obtain ⟨_, -, hqualifier⟩ := bind_eq_ok_iff.mp hqualifier
    cases hqualifier
    rw [if_neg (by grind)]
  · rename_i hlink
    rw [if_pos (by simpa using hlink)]
    split at hqualifier
    · exact .inl (pure_eq_ok_iff.mp hqualifier).symm
    · split at hqualifier
      · exact .inl (pure_eq_ok_iff.mp hqualifier).symm
      · split at hqualifier
        · exact .inr (pure_eq_ok_iff.mp hqualifier).symm
        · cases hqualifier

/-- A qualifier that the field may have is the canonical one. -/
theorem qualifier_of_qualifies (field : FieldRef) {table : Option TableRef}
    {definition : FieldDefinition} (hdefinition : session.definition field = .ok definition)
    (hqualifies : Qualifies ((table.map TableRef.mode).getD .unknown) definition
      field.qualifier) :
    session.qualifier field table = .ok field.qualifier := by
  apply bind_eq_ok_iff.mpr
  refine ⟨definition, hdefinition, ?_⟩
  dsimp only
  unfold Qualifies at hqualifies
  split at hqualifies
  · rename_i hlink
    rw [if_neg (by simpa using hlink)]
    obtain hsource | htarget := hqualifies
    · rw [hsource]
      rfl
    · rw [htarget]
      rfl
  · rename_i hplain
    rw [if_pos (by grind), hqualifies]
    rfl

/-- Only a work item field of a link query may be written with a qualifier. -/
theorem unqualified_of_qualifier {field : FieldRef} {table : Option TableRef}
    {qualifier : Option String} {definition : FieldDefinition}
    (hqualifier : session.qualifier field table = .ok qualifier)
    (hdefinition : session.definition field = .ok definition)
    (hplain : ¬(((table.map TableRef.mode).getD .unknown).isLinkQuery = true ∧
      definition.isLinkField = false)) : field.qualifier = none := by
  obtain ⟨found, hfound, hqualifier⟩ := bind_eq_ok_iff.mp hqualifier
  cases hdefinition.symm.trans hfound
  dsimp only at hqualifier
  rw [if_pos (by grind)] at hqualifier
  obtain ⟨_, hnone, -⟩ := bind_eq_ok_iff.mp hqualifier
  exact Option.isNone_iff_eq_none.mp (Error.ensure_eq_ok_iff.mp hnone)

theorem schema_canonical (session : Session) : session.schema.Canonical := by
  intro field table qualifier hqualifier
  obtain ⟨definition, hdefinition, hqualifies⟩ := qualifies_of_qualifier hqualifier
  exact qualifier_of_qualifies { field with qualifier } hdefinition hqualifies

/-- What is known of a resolved field: it has a definition, whose type it takes,
and a qualifier that goes with the mode of the query. -/
def Knows (session : Session) (mode : QueryMode) (field : FieldRef) : Prop :=
  ∃ definition, session.definition? field = some definition ∧
    field.type = definition.dataType ∧ Qualifies mode definition field.qualifier

theorem knows_of_resolved {field : FieldRef} {scope : Scope}
    (hfield : field.Resolved session.schema scope) : session.Knows scope.mode field := by
  obtain ⟨⟨id, -, hid, htype⟩, written, hqualifier⟩ := hfield
  obtain ⟨definition, hdefinition, hqualifies⟩ := qualifies_of_qualifier hqualifier
  obtain ⟨hown, hfound⟩ := definition_eq_ok hdefinition
  have hsame : definition.id = id := Option.some.inj (hown.symm.trans hid)
  subst hsame
  refine ⟨definition, ?_, ?_, hqualifies⟩
  · rw [definition?, hid, Option.bind_some, hfound]
  · rw [htype]
    show session.fieldType definition.id = definition.dataType
    rw [fieldType, hfound]
    rfl

/-- A field without its sort direction is still resolved. -/
theorem resolved_reference {field : FieldRef} {scope : Scope}
    (hfield : field.Resolved session.schema scope) :
    field.reference.Resolved session.schema scope :=
  ⟨hfield.name, hfield.qualifier⟩

end Session

end TrackerQuery

import TrackerQuery.Compile
import TrackerQuery.Proofs.Lockstep
import TrackerQuery.Proofs.PlacedTree
import TrackerQuery.Proofs.Resolved
import TrackerQuery.Proofs.Resolving

/-!
# Places of faults in resolving

A stage that is given a query placed in the text blames places of the text only, and what
it makes is placed in the text again.  So it is with resolving: each rule blames the
condition, the field or the value that it looks at.
-/

namespace TrackerQuery

/-- The step succeeds with a value that satisfies `P`, or it blames a place of the text, or
it fails without blaming the query. -/
inductive Blames (text : String) {α : Type} (P : α → Prop) : Except Error α → Prop
  | ok {a} (hvalue : P a) : Blames text P (.ok a)
  | fault {cause span} (hspan : span.PlacedIn text) : Blames text P (.error (.located cause span))
  | other {error} (herror : error.fault? = none) : Blames text P (.error error)

/-- A check, of which only the failure matters. -/
abbrev Checks (text : String) : Except Error Unit → Prop :=
  Blames text fun _ => True

namespace Blames

variable {text : String} {α β : Type} {P : α → Prop} {Q : β → Prop} {x : Except Error α}

theorem bind {f : α → Except Error β} (hx : Blames text P x)
    (hf : ∀ a, P a → Blames text Q (f a)) : Blames text Q (x >>= f) := by
  cases hx with
  | ok hvalue => exact hf _ hvalue
  | fault hspan => exact .fault hspan
  | other herror => exact .other herror

theorem map {f : α → β} (hx : Blames text P x) (hf : ∀ a, P a → Q (f a)) :
    Blames text Q (x.map f) := by
  cases hx with
  | ok hvalue => exact .ok (hf _ hvalue)
  | fault hspan => exact .fault hspan
  | other herror => exact .other herror

theorem ite {c : Prop} [Decidable c] {y : Except Error α} (hx : Blames text P x)
    (hy : Blames text P y) : Blames text P (if c then x else y) := by
  split
  · exact hx
  · exact hy

theorem ensure {condition : Bool} {cause : Fault} {span : Span} (hspan : span.PlacedIn text) :
    Checks text (Error.ensure condition (.located cause span)) := by
  cases condition with
  | true => exact .ok trivial
  | false => exact .fault hspan

theorem ensure_bind {condition : Bool} {cause : Fault} {span : Span} {f : Unit → Except Error β}
    (hspan : span.PlacedIn text) (hf : Blames text Q (f ())) :
    Blames text Q (Error.ensure condition (.located cause span) >>= f) :=
  (ensure hspan).bind fun _ _ => hf

theorem notSupported {condition : Bool} {detail : String} :
    Checks text (Error.ensure condition (.notSupported detail)) := by
  cases condition with
  | true => exact .ok trivial
  | false => exact .other rfl

theorem forEach {f : α → Except Error Unit} {l : List α} (hf : ∀ a ∈ l, Checks text (f a)) :
    Checks text (do for a in l do f a : Except Error Unit) := by
  simp only [bind_pure_unit]
  induction l with
  | nil => exact .ok trivial
  | cons a l ih =>
      rw [List.forIn_cons, bind_assoc]
      obtain ⟨hfirst, hothers⟩ := List.forall_mem_cons.mp hf
      exact hfirst.bind fun _ _ => ih hothers

theorem attempt_map {a : Attempt α} {f : α → β} (ha : Blames text P a.toExcept)
    (hf : ∀ v, P v → Q (f v)) : Blames text Q (a.map f).toExcept := by
  rw [Attempt.toExcept_map]
  exact ha.map hf

theorem check {a : Attempt α} {test : α → Except Error Unit} (ha : Blames text P a.toExcept)
    (htest : ∀ v, P v → Checks text (test v)) : Blames text P (a.check test).toExcept := by
  rw [Attempt.toExcept_check]
  exact ha.bind fun v hv => (htest v hv).bind fun _ _ => .ok hv

theorem onClause {clause : Option α} {f : α → Except Error β}
    (hf : ∀ a ∈ clause, Blames text Q (f a)) :
    Blames text (fun found => ∀ b ∈ found, Q b) (Select.onClause clause f) := by
  cases clause with
  | none => exact .ok (by simp)
  | some a => exact (hf a rfl).map fun b hb => by simpa using hb

end Blames

namespace Session

variable {text : String} {session : Session}

/-! ## Names -/

theorem blames_definition {field : FieldRef} (hfield : field.span.PlacedIn text) :
    Blames text (fun _ => True) (session.definition field) := by
  unfold definition
  split
  · exact .ok trivial
  · exact .fault hfield

theorem blames_qualifier {field : FieldRef} {table : Option TableRef}
    (hfield : field.span.PlacedIn text) :
    Blames text (fun _ => True) (session.qualifier field table) := by
  refine (blames_definition hfield).bind fun definition _ => .ite ?_ ?_
  · exact .ensure_bind hfield (.ok trivial)
  · split
    · exact .ok trivial
    · exact .ite (.ok trivial) (.ite (.ok trivial) (.fault hfield))

theorem blames_bindField {field : FieldRef} {scope : Scope} (hfield : field.span.PlacedIn text) :
    Blames text (fun bound : FieldRef => bound.span.PlacedIn text)
      (field.bind session.schema scope).toExcept := by
  rw [FieldRef.toExcept_bind]
  split
  · exact .fault hfield
  · refine Blames.map (blames_qualifier ?_) fun _ _ => ?_
    · exact hfield
    · exact hfield

/-! ## Constants -/

theorem blames_dates_instant (dates : DateStyle) (literal : String) :
    Blames text (fun _ => True) (dates.instant literal) := by
  unfold DateStyle.instant
  cases Calendar.instant dates.locale dates.zone literal with
  | error e => exact .other rfl
  | ok found => exact .ok trivial

theorem blames_stringCastsTo (dates : DateStyle) (value : String) (target : DataType) :
    Blames text (fun _ => True) (Expr.stringCastsTo dates value target) := by
  cases target with
  | string => exact .ok trivial
  | date => exact .ite (.ok trivial) ((blames_dates_instant dates value).map fun _ _ => trivial)
  | _ => exact .ite (.ok trivial) (.ok trivial)

theorem blames_allCastTo {dates : DateStyle} {target : DataType} {es : List Expr}
    (ih : ∀ e ∈ es, Blames text (fun _ => True) (e.castsTo dates target)) :
    Blames text (fun _ => True) (Expr.allCastTo dates target es) := by
  induction es with
  | nil => exact .ok trivial
  | cons e es ihes =>
      obtain ⟨hfirst, hothers⟩ := List.forall_mem_cons.mp ih
      rw [Expr.allCastTo]
      exact hfirst.bind fun casts _ => .ite (ihes hothers) (.ok trivial)

/-- Whether a constant fits a type is no matter of the place it stands at. -/
theorem blames_castsTo (dates : DateStyle) (target : DataType) (e : Expr) :
    Blames text (fun _ => True) (e.castsTo dates target) := by
  induction e with
  | string m value => exact .ite (.ok trivial) (blames_stringCastsTo dates value target)
  | list m items ih => exact .ite (.ok trivial) (blames_allCastTo ih)
  | _ => exact .ok trivial

/-! ## Rules -/

section Rules

variable {left other : FieldRef} {right : Expr} {span : Span} {definition : FieldDefinition}
variable {op : Comparison} {mode : QueryMode}

theorem checks_verifyFieldComparison (hspan : span.PlacedIn text)
    (hother : other.span.PlacedIn text) :
    Checks text (session.verifyFieldComparison definition left other span mode) := by
  refine Blames.notSupported.bind fun _ _ => .ite (.ensure_bind hspan ?_) ?_
  all_goals exact (blames_definition hother).bind fun _ _ => .ensure hspan

theorem checks_verifyGroup : Checks text (session.verifyGroup definition) := by
  unfold verifyGroup
  exact .ite (.ok trivial) (Blames.notSupported.bind fun _ _ => .notSupported)

theorem checks_verifyTreePath (hspan : span.PlacedIn text) (hright : right.PlacedIn text) :
    Checks text (session.verifyTreePath definition op right span) := by
  refine .ensure_bind hspan (.ensure_bind hright.span ?_)
  split
  · exact .ok trivial
  · exact .ite (.ok trivial) (.ensure_bind hright.span (.ensure hright.span))

theorem checks_verifyLongText (hspan : span.PlacedIn text) :
    Checks text (verifyLongText op right span) := by
  unfold verifyLongText
  split
  · exact .ok trivial
  · exact .ensure_bind hspan (.ensure hspan)

theorem checks_verifyProject (hspan : span.PlacedIn text) (hright : right.PlacedIn text) :
    Checks text (session.verifyProject op right span) := by
  refine .ensure_bind hspan ?_
  split
  · exact .ok trivial
  · exact .ite (.ok trivial) (.ensure_bind hright.span (.ensure hright.span))

theorem checks_verifyLinkType (hspan : span.PlacedIn text) (hright : right.PlacedIn text) :
    Checks text (session.verifyLinkType op right span mode) := by
  refine .ensure_bind hspan ?_
  split
  · exact .ok trivial
  · refine .ite (.ok trivial) ?_
    split
    · exact .fault hright.span
    · exact .ite (.ensure hright.span) (.ok trivial)

theorem checks_verifyInteger (hright : right.PlacedIn text) :
    Checks text (verifyInteger right) := by
  unfold verifyInteger
  split
  · exact .ok trivial
  · exact .ensure hright.span

theorem checks_verifyByField (hspan : span.PlacedIn text) (hright : right.PlacedIn text) :
    Checks text (session.verifyByField definition op right span mode) :=
  .ite (checks_verifyTreePath hspan hright) <|
  .ite (checks_verifyLongText hspan) <|
  .ite (checks_verifyProject hspan hright) <|
  .ite (checks_verifyLinkType hspan hright) <|
  .ite (checks_verifyInteger hright) (.ok trivial)

theorem checks_verifyValue (hspan : span.PlacedIn text) (hleft : left.span.PlacedIn text)
    (hright : right.PlacedIn text) :
    Checks text (session.verifyValue definition left op right span mode) := by
  refine .ite (checks_verifyGroup.bind fun _ _ => ?_) ?_
  all_goals
    refine .ite (.ensure_bind hspan ?_) ?_
    all_goals
      refine (checks_verifyByField hspan hright).bind fun _ _ => ?_
      exact .ite (.ensure hleft) (.ok trivial)

theorem checks_verifyComparison (hspan : span.PlacedIn text) (hleft : left.span.PlacedIn text)
    (hright : right.PlacedIn text) :
    Checks text (session.verifyComparison left op right span mode) := by
  refine .ensure_bind hspan ((blames_definition hleft).bind fun definition _ => ?_)
  have hvalue : Checks text (session.verifyValue definition left op right span mode) :=
    checks_verifyValue hspan hleft hright
  cases hright with
  | field _ hother => exact checks_verifyFieldComparison hspan hother
  | _ => exact .ite (.ok trivial) hvalue

theorem checks_verifyCondition (hspan : span.PlacedIn text) (hleft : left.span.PlacedIn text)
    (hright : right.PlacedIn text) :
    Checks text (session.verifyCondition left op right span mode) := by
  refine (checks_verifyComparison hspan hleft hright).bind fun _ _ => ?_
  split
  · cases hright with
    | list _ hitems =>
        exact .forEach fun e he => checks_verifyComparison hspan hleft (hitems e he)
  · exact .ok trivial

theorem checks_verifyEver {operand : Expr} (hspan : span.PlacedIn text)
    (hoperand : operand.PlacedIn text) : Checks text (session.verifyEver operand span) := by
  cases hoperand with
  | condition hm hleft hright =>
      refine .ensure_bind hm (.ite (.ensure_bind hm ?_) ?_)
      all_goals exact (blames_definition hleft).bind fun _ _ => .ensure hspan
  | _ => exact .fault hspan

theorem checks_verifyArithmetic {left : Expr} (hspan : span.PlacedIn text) :
    Checks text (session.verifyArithmetic left right span) := by
  have hcasts : Blames text (fun _ => True)
      (left.castsTo session.dates .date <||> left.castsTo session.dates .numeric) := by
    refine (blames_castsTo ..).bind fun casts _ => ?_
    cases casts with
    | true => exact .ok trivial
    | false => exact blames_castsTo ..
  exact hcasts.bind fun _ _ => .ensure_bind hspan (.ensure hspan)

theorem checks_verifyExpr {scope : Scope} {e : Expr} (he : e.PlacedIn text) :
    Checks text (session.verifyExpr scope e) := by
  cases he with
  | condition hm hleft hright => exact checks_verifyCondition hm hleft hright
  | ever hm hoperand => exact checks_verifyEver hm hoperand
  | arithmetic hm hleft hright => exact checks_verifyArithmetic hm
  | _ => exact .ok trivial

theorem checks_checkRight (hright : right.PlacedIn text) :
    Checks text (right.checkRight session.schema op left) := by
  unfold Expr.checkRight
  split
  · exact .ensure hright.span
  · exact (blames_castsTo ..).bind fun _ _ => .ensure hright.span
  · exact .ensure_bind hright.span ((blames_castsTo ..).bind fun _ _ => .ensure hright.span)

end Rules

/-! ## Expressions -/

section Expressions

variable {scope : Scope} {e : Expr}

theorem blames_bind_of_bindParts
    (hparts : Blames text (Expr.PlacedIn text) (e.bindParts session.schema scope).toExcept) :
    Blames text (Expr.PlacedIn text) (e.bind session.schema scope).toExcept :=
  hparts.check fun _ => checks_verifyExpr

theorem blames_bindAll {test : Expr → Except Error Unit} {es : List Expr}
    (htest : ∀ e, e.PlacedIn text → Checks text (test e))
    (hparts : ∀ e ∈ es,
      Blames text (Expr.PlacedIn text) (e.bindParts session.schema scope).toExcept) :
    Blames text (fun es => ∀ e ∈ es, e.PlacedIn text)
      (Expr.bindAll session.schema scope test es).toExcept := by
  induction es with
  | nil => exact .ok nofun
  | cons e es ih =>
      rw [Expr.toExcept_bindAll_cons]
      obtain ⟨hfirst, hothers⟩ := List.forall_mem_cons.mp hparts
      refine ((blames_bind_of_bindParts hfirst).check htest).bind fun bound hbound => ?_
      exact (ih hothers).map fun _ hall => List.forall_mem_cons.mpr ⟨hbound, hall⟩

/-- Resolving a part blames a place of the text. -/
theorem blames_bindParts (he : e.PlacedIn text) :
    Blames text (Expr.PlacedIn text) (e.bindParts session.schema scope).toExcept := by
  have hconst : ∀ e : Expr, e.PlacedIn text → Checks text e.ensureConst :=
    fun _ he => .ensure he.span
  have hboolean : ∀ e : Expr, e.PlacedIn text → Checks text e.ensureBoolean :=
    fun _ he => .ensure he.span
  induction he generalizing scope with
  | string hm => exact .ok (.string hm)
  | number hm => exact .ok (.number hm)
  | boolean hm => exact .ok (.boolean hm)
  | truth hm => exact .ok (.truth hm)
  | var hm =>
      unfold Expr.bindParts Expr.bindVariable
      split
      · exact .fault hm
      · exact .ok (.var hm)
  | field hm hfield => exact (blames_bindField hfield).attempt_map fun _ => .field hm
  | list hm hitems ih =>
      exact (blames_bindAll hconst fun e he => ih e he).attempt_map fun _ => .list hm
  | condition hm hleft hright ih =>
      rw [Expr.toExcept_bindParts_condition]
      refine (blames_bindField hleft).bind fun left hleft => ?_
      refine ((blames_bind_of_bindParts ih).check fun _ => checks_checkRight).bind
        fun right hright => ?_
      exact .ok (.condition hm hleft hright)
  | arithmetic hm hleft hright ihleft ihright =>
      rw [Expr.toExcept_bindParts_arithmetic]
      refine (blames_bind_of_bindParts ihleft).bind fun left hleft => ?_
      refine (blames_bind_of_bindParts ihright).bind fun right hright => ?_
      exact .ensure_bind hm (.ok (.arithmetic hm hleft hright))
  | junction hm hoperands ih =>
      exact (blames_bindAll hboolean fun e he => ih e he).attempt_map fun _ => .junction hm
  | not hm hoperand ih =>
      exact ((blames_bind_of_bindParts ih).check hboolean).attempt_map fun _ => .not hm
  | ever hm hoperand ih =>
      exact ((blames_bind_of_bindParts ih).check hboolean).attempt_map fun _ => .ever hm

theorem blames_bindExpr (he : e.PlacedIn text) :
    Blames text (Expr.PlacedIn text) (e.bind session.schema scope).toExcept :=
  blames_bind_of_bindParts (blames_bindParts he)

end Expressions

/-! ## Queries -/

theorem blames_bindFields {scope : Scope} {fields : List FieldRef}
    (hfields : ∀ field ∈ fields, field.span.PlacedIn text) :
    Blames text (fun bound : List FieldRef => ∀ field ∈ bound, field.span.PlacedIn text)
      (Attempt.list fields (FieldRef.bind session.schema scope)).toExcept := by
  induction fields with
  | nil => exact .ok nofun
  | cons field fields ih =>
      rw [Attempt.toExcept_list_cons]
      obtain ⟨hfirst, hothers⟩ := List.forall_mem_cons.mp hfields
      refine (blames_bindField hfirst).bind fun bound hbound => ?_
      exact (ih hothers).map fun _ hall => List.forall_mem_cons.mpr ⟨hbound, hall⟩

theorem checks_verifyOrdering {earlier fields : List FieldRef}
    (hfields : ∀ field ∈ fields, field.span.PlacedIn text) :
    Checks text (session.verifyOrdering earlier fields) := by
  induction fields generalizing earlier with
  | nil => exact .ok trivial
  | cons field fields ih =>
      obtain ⟨hfirst, hothers⟩ := List.forall_mem_cons.mp hfields
      refine (blames_definition hfirst).bind fun definition _ => ?_
      exact .ensure_bind hfirst (.ensure_bind hfirst (.ensure_bind hfirst (ih hothers)))

theorem checks_verifyColumns {fields : List FieldRef}
    (hfields : ∀ field ∈ fields, field.span.PlacedIn text) :
    Checks text (session.verifyColumns fields) := by
  unfold verifyColumns
  simp only [← bind_assoc]
  exact .forEach fun field hfield =>
    (blames_definition (hfields field hfield)).bind fun _ _ => .ensure (hfields field hfield)

theorem checks_verifyFields {list : FieldList} (hlist : list.PlacedIn text) :
    Checks text (session.verifyFields list) := by
  unfold verifyFields
  split
  · exact checks_verifyColumns hlist.fields
  · exact checks_verifyOrdering hlist.fields
  · exact .ok trivial

theorem blames_bindFieldList {scope : Scope} {list : FieldList} (hlist : list.PlacedIn text) :
    Blames text (FieldList.PlacedIn text) (list.bind session.schema scope) := by
  refine (blames_bindFields hlist.fields).bind fun fields hfields => ?_
  have hbound : FieldList.PlacedIn text { list with fields } := ⟨hlist.span, hfields⟩
  exact (checks_verifyFields hbound).bind fun _ _ => .ok hbound

theorem blames_findTable (name : String) :
    Blames text (fun _ => True) (session.findTable name) := by
  unfold findTable
  split
  · exact .ok trivial
  · exact .ite (.other rfl) (.ok trivial)

/-- Resolving the table blames a place of the text. -/
theorem blames_bindTable {query : Select} (hquery : query.PlacedIn text) :
    Blames text (fun table : TableRef => table.span.PlacedIn text)
      (query.bindTable session.schema) := by
  unfold Select.bindTable
  split
  · exact .fault hquery.span
  · rename_i table htable
    have hbound : Blames text (fun table : TableRef => table.span.PlacedIn text)
        (table.bind session.schema) := by
      refine (blames_findTable table.name).bind fun mode _ => ?_
      split
      · exact .ok (hquery.table table htable)
      · exact .fault (hquery.table table htable)
    refine hbound.bind fun table htable => ?_
    split
    · rename_i modes hmodes
      have hplaced := (hquery.modes modes hmodes).span
      have hrefined : Blames text (fun _ => True) (QueryMode.refined table.name modes) := by
        refine .ensure_bind hplaced ?_
        split <;> exact .ok trivial
      exact hrefined.bind fun mode _ => .ensure_bind hplaced (.ok htable)
    · exact .ok htable

theorem checks_verifyQuery {query : Select} (hquery : query.PlacedIn text) :
    Checks text (verifyQuery query) := by
  unfold verifyQuery
  split
  · exact .fault hquery.span
  · cases hgrouping : query.grouping with
    | some grouping => exact .fault (hquery.grouping grouping hgrouping).span
    | none =>
        cases hasOf : query.asOf with
        | none => exact .ok trivial
        | some moment => exact .ensure (hquery.asOf moment hasOf).span

theorem blames_bindFilter {scope : Scope} {filter : Expr} (hfilter : filter.PlacedIn text) :
    Blames text (Expr.PlacedIn text) (Select.bindFilter session.schema scope filter) := by
  refine (blames_bindExpr hfilter).bind fun bound hbound => ?_
  exact .ensure_bind hbound.span (.ok hbound)

theorem blames_bindMoment {scope : Scope} {moment : Expr} (hmoment : moment.PlacedIn text) :
    Blames text (Expr.PlacedIn text) (Select.bindMoment session.schema scope moment) := by
  refine (blames_bindExpr hmoment).bind fun bound hbound => ?_
  exact (blames_castsTo ..).bind fun _ _ => .ensure_bind hbound.span (.ok hbound)

/-- A query that was resolved has its table. -/
structure BoundIn (text : String) (query : Select) : Prop extends query.PlacedIn text where
  found : query.table.isSome = true

/-- Resolving a query blames a place of the text. -/
theorem blames_bind {query : Select} (hquery : query.PlacedIn text) :
    Blames text (BoundIn text) (session.bind query) := by
  unfold Session.bind
  rw [Select.bind_eq]
  refine (blames_bindTable hquery).bind fun table htable => ?_
  refine (Blames.onClause fun list hmem => blames_bindFieldList (hquery.columns list hmem)).bind
    fun columns hcolumns => ?_
  refine (Blames.onClause fun filter hmem => blames_bindFilter (hquery.filter filter hmem)).bind
    fun filter hfilter => ?_
  refine (Blames.onClause fun list hmem => blames_bindFieldList (hquery.grouping list hmem)).bind
    fun grouping hgrouping => ?_
  refine (Blames.onClause fun list hmem => blames_bindFieldList (hquery.ordering list hmem)).bind
    fun ordering hordering => ?_
  refine (Blames.onClause fun moment hmem => blames_bindMoment (hquery.asOf moment hmem)).bind
    fun asOf hasOf => ?_
  have hbound : BoundIn text
      { query with table := some table, columns, filter, grouping, ordering, asOf } :=
    { columns := hcolumns, table := by simpa using htable, filter := hfilter
      grouping := hgrouping, ordering := hordering, asOf := hasOf, modes := hquery.modes
      span := hquery.span, found := rfl }
  exact (checks_verifyQuery hbound.toPlacedIn).bind fun _ _ => .ok hbound

end Session

end TrackerQuery

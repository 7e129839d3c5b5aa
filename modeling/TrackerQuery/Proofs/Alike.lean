import Mathlib.Data.List.Forall2
import TrackerQuery.Proofs.Resolved
import TrackerQuery.Session

/-!
# Queries that say the same

Two queries are alike if they differ only in where things stand and in how names are
spelled: a field may go by any name that the catalog knows it by, a table by any name of
its mode, and qualifiers and modes may be written in either case.  Once names are
resolved, what is left of the difference are places and the names of fields.
-/

namespace TrackerQuery

/-! ## References -/

/-- References that the catalog cannot tell apart. -/
structure FieldRef.Alike (catalog : Catalog) (a b : FieldRef) : Prop where
  name : (catalog.field? a.name).map FieldDefinition.id =
    (catalog.field? b.name).map FieldDefinition.id
  qualifier : a.qualifier.map Text.asciiLowercase = b.qualifier.map Text.asciiLowercase
  direction : a.direction = b.direction
  id : a.id = b.id
  type : a.type = b.type

/-- References to one field of one work item. -/
structure FieldRef.Same (catalog : Catalog) (a b : FieldRef) : Prop where
  name : (catalog.field? a.name).map FieldDefinition.id =
    (catalog.field? b.name).map FieldDefinition.id
  qualifier : a.qualifier = b.qualifier
  direction : a.direction = b.direction
  id : a.id = b.id
  type : a.type = b.type

theorem FieldRef.Same.alike {catalog : Catalog} {a b : FieldRef} (h : a.Same catalog b) :
    a.Alike catalog b :=
  ⟨h.name, congrArg _ h.qualifier, h.direction, h.id, h.type⟩

theorem FieldRef.Same.qualifierText_eq {catalog : Catalog} {a b : FieldRef}
    (h : a.Same catalog b) : a.qualifierText = b.qualifierText :=
  congrArg (·.getD "") h.qualifier

theorem FieldRef.Same.reference {catalog : Catalog} {a b : FieldRef} (h : a.Same catalog b) :
    a.reference.Same catalog b.reference :=
  ⟨h.name, h.qualifier, rfl, h.id, h.type⟩

/-- Relations between references before and after they are resolved, which resolving and
rewriting carry along. -/
structure FieldRef.Carried (catalog : Catalog) (before after : FieldRef → FieldRef → Prop) :
    Prop where
  alike : ∀ {a b}, before a b → a.Alike catalog b
  same : ∀ {a b}, after a b → a.Same catalog b
  resolve : ∀ {a b}, before a b → ∀ id type qualifier,
    after { a with id, type, qualifier } { b with id, type, qualifier }
  reference : ∀ {a b}, after a b → after a.reference b.reference
  again : ∀ {a b}, after a b → before a.reference b.reference
  named : ∀ name qualifier span span',
    before { name, qualifier, span } { name, qualifier, span := span' }

theorem FieldRef.carried_same (catalog : Catalog) :
    FieldRef.Carried catalog (FieldRef.Alike catalog) (FieldRef.Same catalog) where
  alike h := h
  same h := h
  resolve h _ _ _ := ⟨h.name, rfl, h.direction, rfl, rfl⟩
  reference h := h.reference
  again h := h.reference.alike
  named _ _ _ _ := ⟨rfl, rfl, rfl, rfl, rfl⟩

structure TableRef.Alike (a b : TableRef) : Prop where
  name : QueryMode.ofTable a.name = QueryMode.ofTable b.name
  resolved : a.resolved = b.resolved

def ModeList.Alike (a b : ModeList) : Prop :=
  List.Forall₂ (fun item item' => Text.asciiLowercase item.name = Text.asciiLowercase item'.name)
    a.items b.items

structure FieldList.Alike (R : FieldRef → FieldRef → Prop) (a b : FieldList) : Prop where
  kind : a.kind = b.kind
  fields : List.Forall₂ R a.fields b.fields

/-- Names are compared in either case by what they are in lower case. -/
theorem Text.sameIgnoringCase_congr {a b : String}
    (h : Text.asciiLowercase a = Text.asciiLowercase b) (name : String) :
    Text.sameIgnoringCase a name = Text.sameIgnoringCase b name := by
  have hchars : a.toList.map Text.asciiLower = b.toList.map Text.asciiLower :=
    String.ofList_injective h
  rw [Text.sameIgnoringCase, hchars, Text.sameIgnoringCase]

/-! ## Expressions -/

namespace Expr

/-- Expressions of one shape whose references are related. -/
inductive Alike (R : FieldRef → FieldRef → Prop) : Expr → Expr → Prop
  | string {m m' : Mark} {value : String} : Alike R (.string m value) (.string m' value)
  | number {m m' : Mark} {value : String} : Alike R (.number m value) (.number m' value)
  | boolean {m m' : Mark} {value : Bool} : Alike R (.boolean m value) (.boolean m' value)
  | truth {m m' : Mark} {value : Bool} : Alike R (.truth m value) (.truth m' value)
  | var {m m' : Mark} {v : Variable} : Alike R (.var m v) (.var m' v)
  | field {m m' : Mark} {f f' : FieldRef} (hfield : R f f') : Alike R (.field m f) (.field m' f')
  | list {m m' : Mark} {items items' : List Expr} (hitems : List.Forall₂ (Alike R) items items') :
      Alike R (.list m items) (.list m' items')
  | condition {m m' : Mark} {op : Comparison} {left left' : FieldRef} {right right' : Expr}
      (hleft : R left left') (hright : Alike R right right') :
      Alike R (.condition m op left right) (.condition m' op left' right')
  | arithmetic {m m' : Mark} {op : Arithmetic} {left left' right right' : Expr} {type : DataType}
      (hleft : Alike R left left') (hright : Alike R right right') :
      Alike R (.arithmetic m op left right type) (.arithmetic m' op left' right' type)
  | junction {m m' : Mark} {connective : Connective} {operands operands' : List Expr}
      (hoperands : List.Forall₂ (Alike R) operands operands') :
      Alike R (.junction m connective operands) (.junction m' connective operands')
  | not {m m' : Mark} {operand operand' : Expr} (hoperand : Alike R operand operand') :
      Alike R (.not m operand) (.not m' operand')
  | ever {m m' : Mark} {operand operand' : Expr} (hoperand : Alike R operand operand') :
      Alike R (.ever m operand) (.ever m' operand')

/-- Induction over alike expressions, in which lists of parts come with the hypothesis
for each pair of them. -/
@[elab_as_elim, induction_eliminator]
theorem Alike.induction {R : FieldRef → FieldRef → Prop}
    {motive : (e e' : Expr) → Alike R e e' → Prop}
    (string : ∀ {m m' value}, motive (.string m value) (.string m' value) .string)
    (number : ∀ {m m' value}, motive (.number m value) (.number m' value) .number)
    (boolean : ∀ {m m' value}, motive (.boolean m value) (.boolean m' value) .boolean)
    (truth : ∀ {m m' value}, motive (.truth m value) (.truth m' value) .truth)
    (var : ∀ {m m' v}, motive (.var m v) (.var m' v) .var)
    (field : ∀ {m m' f f'} (hfield : R f f'), motive (.field m f) (.field m' f') (.field hfield))
    (list : ∀ {m m' items items'} (hitems : List.Forall₂ (Alike R) items items'),
      List.Forall₂ (fun e e' => ∃ h, motive e e' h) items items' →
        motive (.list m items) (.list m' items') (.list hitems))
    (condition : ∀ {m m' op left left' right right'} (hleft : R left left')
      (hright : Alike R right right'), motive right right' hright →
        motive (.condition m op left right) (.condition m' op left' right')
          (.condition hleft hright))
    (arithmetic : ∀ {m m' op left left' right right' type} (hleft : Alike R left left')
      (hright : Alike R right right'), motive left left' hleft → motive right right' hright →
        motive (.arithmetic m op left right type) (.arithmetic m' op left' right' type)
          (.arithmetic hleft hright))
    (junction : ∀ {m m' connective operands operands'}
      (hoperands : List.Forall₂ (Alike R) operands operands'),
      List.Forall₂ (fun e e' => ∃ h, motive e e' h) operands operands' →
        motive (.junction m connective operands) (.junction m' connective operands')
          (.junction hoperands))
    (not : ∀ {m m' operand operand'} (hoperand : Alike R operand operand'),
      motive operand operand' hoperand →
        motive (.not m operand) (.not m' operand') (.not hoperand))
    (ever : ∀ {m m' operand operand'} (hoperand : Alike R operand operand'),
      motive operand operand' hoperand →
        motive (.ever m operand) (.ever m' operand') (.ever hoperand))
    {e e' : Expr} (h : Alike R e e') : motive e e' h :=
  @Alike.rec R motive (fun l l' _ => List.Forall₂ (fun e e' => ∃ h, motive e e' h) l l')
    string number boolean truth var field list condition arithmetic junction not ever
    .nil (fun h _ hmotive hmotives => .cons ⟨h, hmotive⟩ hmotives) e e' h

/-- What the induction gives for the parts of a list. -/
theorem forall₂_of_exists_alike {R : FieldRef → FieldRef → Prop} {P : Expr → Expr → Prop}
    {es es' : List Expr} (h : List.Forall₂ (fun e e' => ∃ _ : Alike R e e', P e e') es es') :
    List.Forall₂ P es es' :=
  h.imp fun _ _ hpair => (exists_prop.mp hpair).2

theorem Alike.imp {R S : FieldRef → FieldRef → Prop} (hRS : ∀ a b, R a b → S a b) {e e' : Expr}
    (h : Alike R e e') : Alike S e e' := by
  induction h with
  | field hfield => exact .field (hRS _ _ hfield)
  | list hitems ih => exact .list (forall₂_of_exists_alike ih)
  | condition hleft hright ih => exact .condition (hRS _ _ hleft) ih
  | arithmetic hleft hright ihleft ihright => exact .arithmetic ihleft ihright
  | junction hoperands ih => exact .junction (forall₂_of_exists_alike ih)
  | not hoperand ih => exact .not ih
  | ever hoperand ih => exact .ever ih
  | _ => constructor

theorem Alike.withMark {R : FieldRef → FieldRef → Prop} {e e' : Expr} (h : Alike R e e')
    (m m' : Mark) : Alike R (e.withMark m) (e'.withMark m') := by
  cases h <;> constructor <;> assumption

/-- Expressions that say the same of the same fields. -/
abbrev Same (catalog : Catalog) : Expr → Expr → Prop :=
  Alike (FieldRef.Same catalog)

/-! ## What does not depend on names and places -/

section Alike

variable {catalog : Catalog} {R : FieldRef → FieldRef → Prop} {e e' : Expr} {es es' : List Expr}

theorem Alike.literal?_eq (h : Alike R e e') : e.literal? = e'.literal? := by
  cases h <;> rfl

theorem Alike.truth?_eq (h : Alike R e e') : e.truth? = e'.truth? := by
  cases h <;> rfl

theorem allOfType_eq (h : List.Forall₂ (fun e e' => e.dataType = e'.dataType) es es')
    (type : DataType) : allOfType type es = allOfType type es' := by
  induction h with
  | nil => rfl
  | cons hfirst _ ih => rw [allOfType, allOfType, hfirst, ih]

theorem Alike.dataType_eq (h : Alike (FieldRef.Same catalog) e e') : e.dataType = e'.dataType := by
  induction h with
  | field hfield => exact hfield.type
  | list hitems ih =>
      have htypes := forall₂_of_exists_alike ih
      cases htypes with
      | nil => rfl
      | cons hfirst hothers =>
          simp only [dataType, commonType, hfirst, allOfType_eq hothers]
  | _ => rfl

theorem allConst_eq (h : List.Forall₂ (fun e e' => e.isConst = e'.isConst) es es') :
    allConst es = allConst es' := by
  induction h with
  | nil => rfl
  | cons hfirst _ ih => rw [allConst, allConst, hfirst, ih]

theorem Alike.isConst_eq (h : Alike (FieldRef.Same catalog) e e') : e.isConst = e'.isConst := by
  induction h with
  | list hitems ih => exact allConst_eq (forall₂_of_exists_alike ih)
  | arithmetic hleft hright ihleft ihright => rw [isConst, isConst, ihleft, ihright]
  | _ => rfl

theorem allCastTo_eq {dates : DateStyle} {target : DataType}
    (h : List.Forall₂ (fun e e' => e.castsTo dates target = e'.castsTo dates target) es es') :
    allCastTo dates target es = allCastTo dates target es' := by
  induction h with
  | nil => rfl
  | cons hfirst _ ih => rw [allCastTo, allCastTo, hfirst, ih]

theorem Alike.castsTo_eq (h : Alike (FieldRef.Same catalog) e e') (dates : DateStyle)
    (target : DataType) : e.castsTo dates target = e'.castsTo dates target := by
  induction h with
  | field hfield => rw [castsTo, castsTo, hfield.type]
  | list hitems ih => rw [castsTo, castsTo, allCastTo_eq (forall₂_of_exists_alike ih)]
  | _ => rfl

end Alike

end Expr

/-! ## Queries -/

structure Select.Alike (R : FieldRef → FieldRef → Prop) (a b : Select) : Prop where
  columns : Option.Rel (FieldList.Alike R) a.columns b.columns
  table : Option.Rel TableRef.Alike a.table b.table
  filter : Option.Rel (Expr.Alike R) a.filter b.filter
  grouping : Option.Rel (FieldList.Alike R) a.grouping b.grouping
  ordering : Option.Rel (FieldList.Alike R) a.ordering b.ordering
  asOf : Option.Rel (Expr.Alike R) a.asOf b.asOf
  modes : Option.Rel ModeList.Alike a.modes b.modes

theorem rel_imp {α β : Type} {R S : α → β → Prop} (hRS : ∀ a b, R a b → S a b) {x : Option α}
    {y : Option β} (h : Option.Rel R x y) : Option.Rel S x y := by
  cases h with
  | none => exact .none
  | some hab => exact .some (hRS _ _ hab)

theorem FieldList.Alike.imp {R S : FieldRef → FieldRef → Prop} (hRS : ∀ a b, R a b → S a b)
    {a b : FieldList} (h : a.Alike R b) : a.Alike S b :=
  ⟨h.kind, h.fields.imp hRS⟩

theorem Select.Alike.imp {R S : FieldRef → FieldRef → Prop} (hRS : ∀ a b, R a b → S a b)
    {a b : Select} (h : a.Alike R b) : a.Alike S b where
  columns := rel_imp (fun _ _ => FieldList.Alike.imp hRS) h.columns
  table := h.table
  filter := rel_imp (fun _ _ => Expr.Alike.imp hRS) h.filter
  grouping := rel_imp (fun _ _ => FieldList.Alike.imp hRS) h.grouping
  ordering := rel_imp (fun _ _ => FieldList.Alike.imp hRS) h.ordering
  asOf := rel_imp (fun _ _ => Expr.Alike.imp hRS) h.asOf
  modes := h.modes

theorem TableRef.Alike.mode_eq {a b : TableRef} (h : a.Alike b) : a.mode = b.mode :=
  congrArg (·.getD .unknown) h.resolved

theorem Select.Alike.mode_eq {R : FieldRef → FieldRef → Prop} {a b : Select} (h : a.Alike R b) :
    a.mode = b.mode := by
  have htable := h.table
  unfold Select.mode
  generalize a.table = table at htable ⊢
  generalize b.table = table' at htable ⊢
  cases htable with
  | none => rfl
  | some htable => exact htable.mode_eq

/-! ## Deciding -/

section Decidable

instance (catalog : Catalog) (a b : FieldRef) : Decidable (a.Alike catalog b) :=
  decidable_of_iff
    ((catalog.field? a.name).map FieldDefinition.id =
        (catalog.field? b.name).map FieldDefinition.id ∧
      a.qualifier.map Text.asciiLowercase = b.qualifier.map Text.asciiLowercase ∧
      a.direction = b.direction ∧ a.id = b.id ∧ a.type = b.type)
    ⟨fun ⟨name, qualifier, direction, id, type⟩ => ⟨name, qualifier, direction, id, type⟩,
      fun h => ⟨h.name, h.qualifier, h.direction, h.id, h.type⟩⟩

instance (a b : TableRef) : Decidable (a.Alike b) :=
  decidable_of_iff (QueryMode.ofTable a.name = QueryMode.ofTable b.name ∧ a.resolved = b.resolved)
    ⟨fun ⟨name, resolved⟩ => ⟨name, resolved⟩, fun h => ⟨h.name, h.resolved⟩⟩

instance (a b : ModeList) : Decidable (a.Alike b) :=
  inferInstanceAs (Decidable (List.Forall₂ _ a.items b.items))

instance decidableOptionRel {α β : Type} {R : α → β → Prop} [∀ a b, Decidable (R a b)] :
    ∀ a b, Decidable (Option.Rel R a b)
  | none, none => isTrue .none
  | some a, some b => decidable_of_iff (R a b) ⟨.some, fun | .some h => h⟩
  | none, some _ => isFalse nofun
  | some _, none => isFalse nofun

variable {R : FieldRef → FieldRef → Prop} [∀ a b, Decidable (R a b)]

instance (a b : FieldList) : Decidable (a.Alike R b) :=
  decidable_of_iff (a.kind = b.kind ∧ List.Forall₂ R a.fields b.fields)
    ⟨fun ⟨kind, fields⟩ => ⟨kind, fields⟩, fun h => ⟨h.kind, h.fields⟩⟩

namespace Expr

variable (R) in
mutual

def isAlike : Expr → Expr → Bool
  | .string _ value, .string _ value' => value == value'
  | .number _ value, .number _ value' => value == value'
  | .boolean _ value, .boolean _ value' => value == value'
  | .truth _ value, .truth _ value' => value == value'
  | .var _ v, .var _ v' => v == v'
  | .field _ f, .field _ f' => R f f'
  | .list _ items, .list _ items' => areAlike items items'
  | .condition _ op left right, .condition _ op' left' right' =>
      op == op' && R left left' && isAlike right right'
  | .arithmetic _ op left right type, .arithmetic _ op' left' right' type' =>
      op == op' && isAlike left left' && isAlike right right' && type == type'
  | .junction _ connective operands, .junction _ connective' operands' =>
      connective == connective' && areAlike operands operands'
  | .not _ operand, .not _ operand' => isAlike operand operand'
  | .ever _ operand, .ever _ operand' => isAlike operand operand'
  | _, _ => false
termination_by structural e => e

def areAlike : List Expr → List Expr → Bool
  | [], [] => true
  | e :: es, e' :: es' => isAlike e e' && areAlike es es'
  | _, _ => false
termination_by structural es => es

end

theorem forall₂_of_areAlike {es es' : List Expr}
    (hes : ∀ e ∈ es, ∀ e', isAlike R e e' = true → Alike R e e') (h : areAlike R es es' = true) :
    List.Forall₂ (Alike R) es es' := by
  induction es generalizing es' with
  | nil =>
      cases es' with
      | nil => exact .nil
      | cons e' es' => cases h
  | cons e es ih =>
      cases es' with
      | nil => cases h
      | cons e' es' =>
          obtain ⟨hfirst, hothers⟩ := (Bool.and_eq_true ..).mp h
          exact .cons (hes e List.mem_cons_self e' hfirst)
            (ih (fun e he => hes e (List.mem_cons_of_mem _ he)) hothers)

/-- What is found alike is alike. -/
theorem alike_of_isAlike {e e' : Expr} (h : isAlike R e e' = true) : Alike R e e' := by
  induction e generalizing e' with
  | string m value | number m value | boolean m value | truth m value | var m value =>
      cases e' <;> first | cases h | (cases eq_of_beq h; constructor)
  | field m f =>
      cases e' with
      | field m' f' => exact .field (of_decide_eq_true h)
      | _ => cases h
  | list m items ih =>
      cases e' with
      | list m' items' => exact .list (forall₂_of_areAlike (fun e he _ => ih e he) h)
      | _ => cases h
  | condition m op left right ih =>
      cases e' with
      | condition m' op' left' right' =>
          simp only [isAlike, Bool.and_eq_true, beq_iff_eq, decide_eq_true_eq] at h
          obtain ⟨⟨rfl, hleft⟩, hright⟩ := h
          exact .condition hleft (ih hright)
      | _ => cases h
  | arithmetic m op left right type ihleft ihright =>
      cases e' with
      | arithmetic m' op' left' right' type' =>
          simp only [isAlike, Bool.and_eq_true, beq_iff_eq] at h
          obtain ⟨⟨⟨rfl, hleft⟩, hright⟩, rfl⟩ := h
          exact .arithmetic (ihleft hleft) (ihright hright)
      | _ => cases h
  | junction m connective operands ih =>
      cases e' with
      | junction m' connective' operands' =>
          simp only [isAlike, Bool.and_eq_true, beq_iff_eq] at h
          obtain ⟨rfl, hoperands⟩ := h
          exact .junction (forall₂_of_areAlike (fun e he _ => ih e he) hoperands)
      | _ => cases h
  | not m operand ih =>
      cases e' with
      | not m' operand' => exact .not (ih h)
      | _ => cases h
  | ever m operand ih =>
      cases e' with
      | ever m' operand' => exact .ever (ih h)
      | _ => cases h

theorem areAlike_of_forall₂ {es es' : List Expr}
    (h : List.Forall₂ (fun e e' => isAlike R e e' = true) es es') : areAlike R es es' = true := by
  induction h with
  | nil => rfl
  | cons hfirst _ ih => rw [areAlike, hfirst, ih, Bool.and_self]

theorem Alike.isAlike_eq_true {e e' : Expr} (h : Alike R e e') : isAlike R e e' = true := by
  induction h with
  | list _ ih => exact areAlike_of_forall₂ (forall₂_of_exists_alike ih)
  | junction _ ih => simp [isAlike, areAlike_of_forall₂ (forall₂_of_exists_alike ih)]
  | field hfield => simp [isAlike, hfield]
  | condition hleft _ ih => simp [isAlike, hleft, ih]
  | arithmetic _ _ ihleft ihright => simp [isAlike, ihleft, ihright]
  | not _ ih | ever _ ih => exact ih
  | _ => simp [isAlike]

instance (e e' : Expr) : Decidable (Alike R e e') :=
  decidable_of_iff (isAlike R e e' = true) ⟨alike_of_isAlike, Alike.isAlike_eq_true⟩

end Expr

instance (a b : Select) : Decidable (a.Alike R b) :=
  decidable_of_iff
    (Option.Rel (FieldList.Alike R) a.columns b.columns ∧
      Option.Rel TableRef.Alike a.table b.table ∧ Option.Rel (Expr.Alike R) a.filter b.filter ∧
      Option.Rel (FieldList.Alike R) a.grouping b.grouping ∧
      Option.Rel (FieldList.Alike R) a.ordering b.ordering ∧
      Option.Rel (Expr.Alike R) a.asOf b.asOf ∧ Option.Rel ModeList.Alike a.modes b.modes)
    ⟨fun ⟨columns, table, filter, grouping, ordering, asOf, modes⟩ =>
        ⟨columns, table, filter, grouping, ordering, asOf, modes⟩,
      fun h => ⟨h.columns, h.table, h.filter, h.grouping, h.ordering, h.asOf, h.modes⟩⟩

end Decidable

/-- Scopes of one mode and of one type on the left of the condition. -/
structure Scope.Alike (a b : Scope) : Prop where
  mode : a.mode = b.mode
  fieldType : a.fieldType? = b.fieldType?

theorem Scope.Alike.withField {catalog : Catalog} {a b : Scope} {left left' : FieldRef}
    (h : a.Alike b) (hleft : left.Same catalog left') :
    (a.withField left).Alike (b.withField left') :=
  ⟨h.mode, congrArg some hleft.type⟩

end TrackerQuery

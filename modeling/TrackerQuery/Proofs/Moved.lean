import TrackerQuery.Proofs.Alike
import TrackerQuery.Proofs.Unplaced

/-!
# Queries that differ in places

Queries that are the same once places are forgotten are alike, whatever relation their
references are in.  Expressions with the same references up to places are equal up to
places and parentheses.
-/

namespace TrackerQuery

def FieldRef.Moved (a b : FieldRef) : Prop :=
  a.unplaced = b.unplaced

theorem FieldRef.alike_of_unplaced {catalog : Catalog} {a b : FieldRef}
    (h : a.unplaced = b.unplaced) : a.Alike catalog b := by
  obtain ⟨hqualifier, hname, hdirection, hid, htype, -⟩ := FieldRef.mk.inj h
  exact ⟨by rw [hname], by rw [hqualifier], hdirection, hid, htype⟩

/-- Resolving and rewriting look at the place of a reference only to report it. -/
theorem FieldRef.carried_moved (catalog : Catalog) :
    FieldRef.Carried catalog FieldRef.Moved FieldRef.Moved where
  alike h := alike_of_unplaced h
  same h := by
    obtain ⟨hqualifier, hname, hdirection, hid, htype, -⟩ := FieldRef.mk.inj h
    exact ⟨by rw [hname], hqualifier, hdirection, hid, htype⟩
  resolve h id type qualifier := by
    obtain ⟨-, hname, hdirection, -⟩ := FieldRef.mk.inj h
    simp only [Moved, unplaced, hname, hdirection]
  reference h := congrArg FieldRef.reference h
  again h := congrArg FieldRef.reference h
  named _ _ _ _ := rfl

namespace Expr

variable {R : FieldRef → FieldRef → Prop}

theorem forall₂_alike_of_unplaced {es es' : List Expr}
    (hes : ∀ e ∈ es, ∀ e', e.unplaced = e'.unplaced → Alike R e e')
    (h : unplacedAll es = unplacedAll es') : List.Forall₂ (Alike R) es es' := by
  rw [unplacedAll_eq_map, unplacedAll_eq_map] at h
  induction es generalizing es' with
  | nil =>
      obtain rfl : es' = [] := by simpa using h.symm
      exact .nil
  | cons e es ih =>
      obtain ⟨hfirst, hothers⟩ := List.forall_mem_cons.mp hes
      obtain ⟨e', es', rfl, he, hes'⟩ := List.map_eq_cons_iff.mp h.symm
      exact .cons (hfirst e' he.symm) (ih hothers hes'.symm)

/-- Expressions that are equal but for places are alike. -/
theorem alike_of_unplaced (hR : ∀ a b : FieldRef, a.unplaced = b.unplaced → R a b) {e e' : Expr}
    (h : e.unplaced = e'.unplaced) : Alike R e e' := by
  induction e generalizing e' with
  | string m value | number m value | boolean m value | truth m value | var m value =>
      cases e' <;> first | (injection h with _ heq; cases heq; constructor) | cases h
  | field m f =>
      cases e' with
      | field m' f' => exact .field (hR f f' (field.inj h).2)
      | _ => cases h
  | list m items ih =>
      cases e' with
      | list m' items' =>
          exact .list (forall₂_alike_of_unplaced (fun e he _ => ih e he) (list.inj h).2)
      | _ => cases h
  | condition m op left right ih =>
      cases e' with
      | condition m' op' left' right' =>
          obtain ⟨-, rfl, hleft, hright⟩ := condition.inj h
          exact .condition (hR left left' hleft) (ih hright)
      | _ => cases h
  | arithmetic m op left right type ihleft ihright =>
      cases e' with
      | arithmetic m' op' left' right' type' =>
          obtain ⟨-, rfl, hleft, hright, rfl⟩ := arithmetic.inj h
          exact .arithmetic (ihleft hleft) (ihright hright)
      | _ => cases h
  | junction m connective operands ih =>
      cases e' with
      | junction m' connective' operands' =>
          obtain ⟨-, rfl, hoperands⟩ := junction.inj h
          exact .junction (forall₂_alike_of_unplaced (fun e he _ => ih e he) hoperands)
      | _ => cases h
  | not m operand ih =>
      cases e' with
      | not m' operand' => exact .not (ih (not.inj h).2)
      | _ => cases h
  | ever m operand ih =>
      cases e' with
      | ever m' operand' => exact .ever (ih (ever.inj h).2)
      | _ => cases h

end Expr

theorem rel_of_map_eq {α γ : Type} {R : α → α → Prop} {f : α → γ} (hR : ∀ a b, f a = f b → R a b)
    {x y : Option α} (h : x.map f = y.map f) : Option.Rel R x y := by
  cases x with
  | none =>
      cases y with
      | none => exact .none
      | some b => cases h
  | some a =>
      cases y with
      | none => cases h
      | some b => exact .some (hR a b (Option.some.inj h))

theorem FieldList.alike_of_unplaced {R : FieldRef → FieldRef → Prop}
    (hR : ∀ a b : FieldRef, a.unplaced = b.unplaced → R a b) {a b : FieldList}
    (h : a.unplaced = b.unplaced) : a.Alike R b := by
  obtain ⟨hkind, hfields, -⟩ := FieldList.mk.inj h
  refine ⟨hkind, ?_⟩
  rw [← List.forall₂_eq_eq_eq, List.forall₂_map_left_iff, List.forall₂_map_right_iff] at hfields
  exact hfields.imp hR

theorem ModeList.alike_of_unplaced {a b : ModeList} (h : a.unplaced = b.unplaced) : a.Alike b := by
  have hitems := (ModeList.mk.inj h).1
  rw [← List.forall₂_eq_eq_eq, List.forall₂_map_left_iff, List.forall₂_map_right_iff] at hitems
  refine hitems.imp fun item item' hitem => ?_
  rw [(ModeItem.mk.inj hitem).1]

theorem TableRef.alike_of_unplaced {a b : TableRef} (h : a.unplaced = b.unplaced) : a.Alike b := by
  obtain ⟨hname, hresolved, -⟩ := TableRef.mk.inj h
  exact ⟨by rw [hname], hresolved⟩

theorem Select.alike_of_unplaced {R : FieldRef → FieldRef → Prop}
    (hR : ∀ a b : FieldRef, a.unplaced = b.unplaced → R a b) {a b : Select}
    (h : a.unplaced = b.unplaced) : a.Alike R b where
  columns := rel_of_map_eq (fun _ _ => FieldList.alike_of_unplaced hR) (congrArg Select.columns h)
  table := rel_of_map_eq (fun _ _ => TableRef.alike_of_unplaced) (congrArg Select.table h)
  filter := rel_of_map_eq (fun _ _ => Expr.alike_of_unplaced hR) (congrArg Select.filter h)
  grouping := rel_of_map_eq (fun _ _ => FieldList.alike_of_unplaced hR)
    (congrArg Select.grouping h)
  ordering := rel_of_map_eq (fun _ _ => FieldList.alike_of_unplaced hR)
    (congrArg Select.ordering h)
  asOf := rel_of_map_eq (fun _ _ => Expr.alike_of_unplaced hR) (congrArg Select.asOf h)
  modes := rel_of_map_eq (fun _ _ => ModeList.alike_of_unplaced) (congrArg Select.modes h)

/-! ## Forgetting places and parentheses -/

namespace Expr

mutual

/-- The expression without its places and parentheses. -/
def bare : Expr → Expr
  | .string _ value => .string {} value
  | .number _ value => .number {} value
  | .boolean _ value => .boolean {} value
  | .truth _ value => .truth {} value
  | .var _ v => .var {} v
  | .field _ f => .field {} f.unplaced
  | .list _ items => .list {} (bareAll items)
  | .condition _ op left right => .condition {} op left.unplaced right.bare
  | .arithmetic _ op left right type => .arithmetic {} op left.bare right.bare type
  | .junction _ connective operands => .junction {} connective (bareAll operands)
  | .not _ operand => .not {} operand.bare
  | .ever _ operand => .ever {} operand.bare

def bareAll : List Expr → List Expr
  | [] => []
  | e :: es => e.bare :: bareAll es

end

theorem bareAll_eq {es es' : List Expr} (h : List.Forall₂ (fun e e' => e.bare = e'.bare) es es') :
    bareAll es = bareAll es' := by
  induction h with
  | nil => rfl
  | cons hfirst _ ih => rw [bareAll, bareAll, hfirst, ih]

theorem Alike.bare_eq {e e' : Expr} (h : Alike FieldRef.Moved e e') : e.bare = e'.bare := by
  induction h with
  | field hfield => exact congrArg (Expr.field {}) hfield
  | list hitems ih => exact congrArg (Expr.list {}) (bareAll_eq (forall₂_of_exists_alike ih))
  | condition hleft hright ih =>
      have hleft : _ = _ := hleft
      rw [bare, bare, hleft, ih]
  | arithmetic hleft hright ihleft ihright => rw [bare, bare, ihleft, ihright]
  | junction hoperands ih =>
      exact congrArg (Expr.junction {} _) (bareAll_eq (forall₂_of_exists_alike ih))
  | not hoperand ih => rw [bare, bare, ih]
  | ever hoperand ih => rw [bare, bare, ih]
  | _ => rfl

end Expr

end TrackerQuery

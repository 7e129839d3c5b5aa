import TrackerQuery.Expr.Bind
import TrackerQuery.Proofs.Outcome

/-!
# Resolved expressions

`Expr.Resolved` says of an expression what resolving leaves behind: every name
has its meaning filled in, every part is of the kind its place asks for, and
every expression has passed the check of the schema in its own scope.  All that
later stages know about their input is read off this predicate.
-/

namespace TrackerQuery

/-- The meaning of the name is filled in, and the qualifier is the canonical
one for the table. -/
structure FieldRef.Resolved (schema : Schema) (scope : Scope) (field : FieldRef) : Prop where
  name : ∃ id, schema.findField field.name = some id ∧ field.id = some id ∧
    field.type = schema.fieldType id
  qualifier : ∃ written, schema.qualifier { field with qualifier := written } scope.table =
    .ok field.qualifier

theorem FieldRef.resolved_of_bind {schema : Schema} {scope : Scope} {field bound : FieldRef}
    (hbind : (field.bind schema scope).toExcept = .ok bound) : bound.Resolved schema scope := by
  unfold FieldRef.bind at hbind
  split at hbind
  · cases hbind
  · rename_i id hname
    dsimp only at hbind
    split at hbind
    · rename_i qualifier hqualifier
      cases hbind
      exact ⟨⟨id, hname, rfl, rfl⟩, ⟨field.qualifier, hqualifier⟩⟩
    · cases hbind

namespace Expr

/-- Induction over expressions, in which a list of parts comes with the
hypothesis for each of them. -/
@[elab_as_elim, induction_eliminator]
theorem induction {motive : Expr → Prop}
    (string : ∀ m value, motive (.string m value))
    (number : ∀ m value, motive (.number m value))
    (boolean : ∀ m value, motive (.boolean m value))
    (truth : ∀ m value, motive (.truth m value))
    (var : ∀ m v, motive (.var m v))
    (field : ∀ m f, motive (.field m f))
    (list : ∀ m items, (∀ e ∈ items, motive e) → motive (.list m items))
    (condition : ∀ m op left right, motive right → motive (.condition m op left right))
    (arithmetic : ∀ m op left right type, motive left → motive right →
      motive (.arithmetic m op left right type))
    (junction : ∀ m connective operands, (∀ e ∈ operands, motive e) →
      motive (.junction m connective operands))
    (not : ∀ m operand, motive operand → motive (.not m operand))
    (ever : ∀ m operand, motive operand → motive (.ever m operand))
    (e : Expr) : motive e :=
  @Expr.rec motive (fun es => ∀ e ∈ es, motive e)
    string number boolean truth var field list condition arithmetic junction not ever
    (by simp) (by simp +contextual) e

mutual

/-- What resolving the parts of an expression leaves behind. -/
def PartsResolved (schema : Schema) (scope : Scope) : Expr → Prop
  | .string _ _ | .number _ _ | .boolean _ _ | .truth _ _ => True
  | .var _ v => ∃ found, schema.findVariable v.name = some found ∧ v.target = some found.target ∧
      v.type = schema.variableType found.target
  | .field _ f => f.Resolved schema scope
  | .list _ items => AllResolved schema scope ensureConst items
  | .condition _ op left right =>
      left.Resolved schema scope ∧
        (PartsResolved schema (scope.withField left) right ∧
          schema.verifyExpr (scope.withField left) right = .ok ()) ∧
        checkRight schema op left right = .ok ()
  | .arithmetic _ _ left right type =>
      (PartsResolved schema scope left ∧ schema.verifyExpr scope left = .ok ()) ∧
        (PartsResolved schema scope right ∧ schema.verifyExpr scope right = .ok ()) ∧
        left.isConst = true ∧ right.isConst = true ∧ type = arithmeticType scope left
  | .junction _ _ operands => AllResolved schema scope ensureBoolean operands
  | .not _ operand | .ever _ operand =>
      (PartsResolved schema scope operand ∧ schema.verifyExpr scope operand = .ok ()) ∧
        ensureBoolean operand = .ok ()
termination_by structural e => e

def AllResolved (schema : Schema) (scope : Scope) (test : Expr → Except Error Unit) :
    List Expr → Prop
  | [] => True
  | e :: es =>
      ((PartsResolved schema scope e ∧ schema.verifyExpr scope e = .ok ()) ∧ test e = .ok ()) ∧
        AllResolved schema scope test es
termination_by structural es => es

end

/-- What resolving an expression in a scope leaves behind. -/
def Resolved (schema : Schema) (scope : Scope) (e : Expr) : Prop :=
  e.PartsResolved schema scope ∧ schema.verifyExpr scope e = .ok ()

theorem allResolved_iff {schema : Schema} {scope : Scope} {test : Expr → Except Error Unit}
    {es : List Expr} :
    AllResolved schema scope test es ↔ ∀ e ∈ es, e.Resolved schema scope ∧ test e = .ok () := by
  induction es with
  | nil => simp [AllResolved]
  | cons e es ih => simp [AllResolved, Resolved, ih]

variable {schema : Schema} {scope : Scope}

theorem ensureBoolean_eq_ok_iff {e : Expr} {u : Unit} :
    ensureBoolean e = .ok u ↔ e.dataType = .bool := by
  rw [ensureBoolean, Error.ensure_eq_ok_iff, beq_iff_eq]

theorem partsResolved_of_bindVariable {m : Mark} {v : Variable} {bound : Expr}
    (hbind : (bindVariable schema m v).toExcept = .ok bound) :
    bound.PartsResolved schema scope := by
  unfold bindVariable at hbind
  split at hbind
  · cases hbind
  · rename_i found hfound
    cases hbind
    exact ⟨found, hfound, rfl, rfl⟩

/-- Items that are resolved in turn are all resolved, provided each is. -/
theorem allResolved_of_bindAll {test : Expr → Except Error Unit} {es bound : List Expr}
    (ih : ∀ e ∈ es, ∀ scope b, (bindParts schema scope e).toExcept = .ok b →
      b.PartsResolved schema scope)
    (hbind : (bindAll schema scope test es).toExcept = .ok bound) :
    AllResolved schema scope test bound := by
  induction es generalizing bound with
  | nil =>
      cases hbind
      trivial
  | cons e es ihes =>
      rw [bindAll] at hbind
      obtain ⟨first, hfirst, hbind⟩ := Attempt.andThen_eq_ok_iff.mp hbind
      obtain ⟨others, hothers, rfl⟩ := Attempt.map_eq_ok_iff.mp hbind
      obtain ⟨hchecked, htest⟩ := Attempt.check_eq_ok_iff.mp hfirst
      obtain ⟨hparts, hverify⟩ := Attempt.check_eq_ok_iff.mp hchecked
      exact ⟨⟨⟨ih e (by simp) scope first hparts, hverify⟩, htest⟩,
        ihes (fun e he => ih e (by simp [he])) hothers⟩

/-- A condition is resolved field first, then its right side in the scope of
the field. -/
theorem bindParts_condition {m : Mark} {op : Comparison} {left : FieldRef} {right bound : Expr}
    (hbind : (bindParts schema scope (.condition m op left right)).toExcept = .ok bound) :
    ∃ left' right', (left.bind schema scope).toExcept = .ok left' ∧
      (bindParts schema (scope.withField left') right).toExcept = .ok right' ∧
      schema.verifyExpr (scope.withField left') right' = .ok () ∧
      checkRight schema op left' right' = .ok () ∧ bound = .condition m op left' right' := by
  rw [bindParts] at hbind
  obtain ⟨left', hleft, hbind⟩ := Attempt.andThen_eq_ok_iff.mp hbind
  obtain ⟨right', hright, rfl⟩ := Attempt.map_eq_ok_iff.mp hbind
  obtain ⟨hchecked, hkind⟩ := Attempt.check_eq_ok_iff.mp hright
  obtain ⟨hparts, hverify⟩ := Attempt.check_eq_ok_iff.mp hchecked
  exact ⟨left', right', hleft, hparts, hverify, hkind, rfl⟩

/-- A successful resolution of the parts leaves them resolved. -/
theorem partsResolved_of_bindParts (e : Expr) (scope : Scope) (bound : Expr)
    (hbind : (bindParts schema scope e).toExcept = .ok bound) :
    bound.PartsResolved schema scope := by
  induction e generalizing scope bound with
  | string m value | number m value | boolean m value | truth m value =>
      cases hbind
      trivial
  | var m v => exact partsResolved_of_bindVariable hbind
  | field m f =>
      obtain ⟨found, hfound, rfl⟩ := Attempt.map_eq_ok_iff.mp hbind
      exact FieldRef.resolved_of_bind hfound
  | list m items ih =>
      obtain ⟨found, hfound, rfl⟩ := Attempt.map_eq_ok_iff.mp hbind
      exact allResolved_of_bindAll ih hfound
  | condition m op left right ih =>
      obtain ⟨left', right', hleft, hright, hverify, hkind, rfl⟩ := bindParts_condition hbind
      exact ⟨FieldRef.resolved_of_bind hleft, ⟨ih _ _ hright, hverify⟩, hkind⟩
  | arithmetic m op left right type ihleft ihright =>
      rw [bindParts] at hbind
      obtain ⟨left', hleft, hbind⟩ := Attempt.andThen_eq_ok_iff.mp hbind
      obtain ⟨right', hright, hbind⟩ := Attempt.andThen_eq_ok_iff.mp hbind
      obtain ⟨hpartsLeft, hverifyLeft⟩ := Attempt.check_eq_ok_iff.mp hleft
      obtain ⟨hpartsRight, hverifyRight⟩ := Attempt.check_eq_ok_iff.mp hright
      split at hbind
      · rename_i hconst
        rw [Bool.and_eq_true] at hconst
        cases hbind
        exact ⟨⟨ihleft _ _ hpartsLeft, hverifyLeft⟩, ⟨ihright _ _ hpartsRight, hverifyRight⟩,
          hconst.1, hconst.2, rfl⟩
      · cases hbind
  | junction m connective operands ih =>
      obtain ⟨found, hfound, rfl⟩ := Attempt.map_eq_ok_iff.mp hbind
      exact allResolved_of_bindAll ih hfound
  | not m operand ih | ever m operand ih =>
      obtain ⟨found, hfound, rfl⟩ := Attempt.map_eq_ok_iff.mp hbind
      obtain ⟨hchecked, hboolean⟩ := Attempt.check_eq_ok_iff.mp hfound
      obtain ⟨hparts, hverify⟩ := Attempt.check_eq_ok_iff.mp hchecked
      exact ⟨⟨ih _ _ hparts, hverify⟩, hboolean⟩

theorem resolved_of_bind {e bound : Expr} (hbind : (e.bind schema scope).toExcept = .ok bound) :
    bound.Resolved schema scope := by
  obtain ⟨hparts, hverify⟩ := Attempt.check_eq_ok_iff.mp hbind
  exact ⟨partsResolved_of_bindParts e scope bound hparts, hverify⟩

end Expr

end TrackerQuery

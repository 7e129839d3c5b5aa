import Mathlib.Data.List.Forall2
import TrackerQuery.Select.Bind
import TrackerQuery.Proofs.Outcome

/-!
# Runs in lockstep

Two runs of a stage keep in step if both succeed with related values or both fail
in the same way; a failure of the first run can also be excused, and then the second
run does what it likes.  Steps that keep in step do so one after the other, so a stage
follows from its parts.
-/

namespace TrackerQuery

/-- What a failure is, whatever its place and its words. -/
inductive FailureKind where
  | fault (cause : Fault)
  | notSupported
  | config
  | file
  | serialization
  | xml
  | overflow
  deriving DecidableEq

def Error.kind : Error → FailureKind
  | .fault cause _ => .fault cause
  | .notSupported _ => .notSupported
  | .config _ => .config
  | .file _ => .file
  | .serialization _ => .serialization
  | .xml _ => .xml
  | .overflow => .overflow

/-- The second run follows the first, unless the failure of the first is excused. -/
inductive Follows {α β : Type} (excused : Error → Prop) (R : α → β → Prop) :
    Except Error α → Except Error β → Prop
  | ok {a : α} {b : β} (hvalue : R a b) : Follows excused R (.ok a) (.ok b)
  | error {e f : Error} (hkind : e.kind = f.kind) : Follows excused R (.error e) (.error f)
  | excused {e : Error} {y : Except Error β} (he : excused e) : Follows excused R (.error e) y

/-- Both runs succeed with related values, or both fail in the same way. -/
abbrev Agree {α β : Type} (R : α → β → Prop) : Except Error α → Except Error β → Prop :=
  Follows (fun _ => False) R

namespace Follows

variable {α β γ δ : Type} {excused : Error → Prop} {R : α → β → Prop} {S : γ → δ → Prop}
variable {x : Except Error α} {y : Except Error β}

theorem refl (x : Except Error α) : Follows excused Eq x x := by
  cases x with
  | ok a => exact .ok rfl
  | error e => exact .error rfl

theorem of_eq {x y : Except Error α} (h : y = x) : Follows excused Eq x y :=
  h ▸ refl _

theorem bind {f : α → Except Error γ} {g : β → Except Error δ} (h : Follows excused R x y)
    (hnext : ∀ a b, R a b → Follows excused S (f a) (g b)) :
    Follows excused S (x >>= f) (y >>= g) := by
  cases h with
  | ok hvalue => exact hnext _ _ hvalue
  | error hkind => exact .error hkind
  | excused he => exact .excused he

/-- A step with one outcome, and what each run does after it. -/
theorem bind_eq {x y : Except Error α} {f : α → Except Error γ} {g : α → Except Error δ}
    (h : Follows excused Eq x y) (hnext : ∀ a, Follows excused S (f a) (g a)) :
    Follows excused S (x >>= f) (y >>= g) :=
  h.bind fun a _ hab => hab ▸ hnext a

theorem map {f : α → γ} {g : β → δ} (h : Follows excused R x y)
    (hvalue : ∀ a b, R a b → S (f a) (g b)) : Follows excused S (x.map f) (y.map g) := by
  cases h with
  | ok hab => exact .ok (hvalue _ _ hab)
  | error hkind => exact .error hkind
  | excused he => exact .excused he

theorem ite {c : Prop} [Decidable c] {x x' : Except Error α} {y y' : Except Error β}
    (hpos : c → Follows excused R x y) (hneg : ¬c → Follows excused R x' y') :
    Follows excused R (if c then x else x') (if c then y else y') := by
  by_cases hc : c
  · rw [if_pos hc, if_pos hc]
    exact hpos hc
  · rw [if_neg hc, if_neg hc]
    exact hneg hc

theorem located (cause : Fault) (span span' : Span) :
    Follows excused R (.error (.located cause span)) (.error (.located cause span')) :=
  .error rfl

/-- A check that reports different places. -/
theorem ensure_located {condition : Bool} {cause : Fault} {span span' : Span} :
    Follows excused Eq (Error.ensure condition (.located cause span))
      (Error.ensure condition (.located cause span')) := by
  cases condition with
  | true => exact .ok rfl
  | false => exact .located ..

theorem ensure_located_bind {condition : Bool} {cause : Fault} {span span' : Span}
    {f : Unit → Except Error γ} {g : Unit → Except Error δ}
    (hnext : Follows excused S (f ()) (g ())) :
    Follows excused S (Error.ensure condition (.located cause span) >>= f)
      (Error.ensure condition (.located cause span') >>= g) :=
  ensure_located.bind_eq fun _ => hnext

/-- A check that the second run passes more easily. -/
theorem ensure_of_imp {condition condition' : Bool} {e f : Error} (he : excused e)
    (hmore : condition = true → condition' = true) :
    Follows excused Eq (Error.ensure condition e) (Error.ensure condition' f) := by
  cases condition with
  | true =>
      rw [hmore rfl]
      exact .ok rfl
  | false => exact .excused he

/-- A loop over a list each, whose items go together. -/
theorem forEach {P : α → β → Prop} {f : α → Except Error Unit} {g : β → Except Error Unit}
    {l : List α} {l' : List β} (hl : List.Forall₂ P l l')
    (hitem : ∀ a b, P a b → Follows excused Eq (f a) (g b)) :
    Follows excused Eq (do for a in l do f a : Except Error Unit) (do for b in l' do g b) := by
  simp only [bind_pure_unit]
  induction hl with
  | nil => exact .refl _
  | cons hab _ ih =>
      rw [List.forIn_cons, List.forIn_cons, bind_assoc, bind_assoc]
      exact (hitem _ _ hab).bind_eq fun _ => ih

theorem eq_ok {a : α} (h : Follows excused R (.ok a) y) : ∃ b, y = .ok b ∧ R a b := by
  cases h with
  | ok hvalue => exact ⟨_, rfl, hvalue⟩

theorem excused_of_ok {e : Error} {b : β} (h : Follows excused R (.error e) (.ok b)) :
    excused e := by
  cases h with
  | excused he => exact he

theorem ok_or_error (h : Agree R x y) :
    (∃ a b, x = .ok a ∧ y = .ok b ∧ R a b) ∨
      ∃ e f, x = .error e ∧ y = .error f ∧ e.kind = f.kind := by
  cases h with
  | ok hvalue => exact .inl ⟨_, _, rfl, rfl, hvalue⟩
  | error hkind => exact .inr ⟨_, _, rfl, rfl, hkind⟩
  | excused he => exact he.elim

end Follows

/-! ## Runs with one outcome -/

/-- Both runs succeed with related values, or both fail, each for its own reason. -/
inductive Matches {α β : Type} (R : α → β → Prop) : Except Error α → Except Error β → Prop
  | ok {a : α} {b : β} (hvalue : R a b) : Matches R (.ok a) (.ok b)
  | error {e f : Error} : Matches R (.error e) (.error f)

theorem Follows.matches {α β : Type} {R : α → β → Prop} {x : Except Error α} {y : Except Error β}
    (h : Agree R x y) : Matches R x y := by
  cases h with
  | ok hvalue => exact .ok hvalue
  | error _ => exact .error
  | excused he => exact he.elim

namespace Matches

variable {α β γ δ : Type} {R : α → β → Prop} {S : γ → δ → Prop}
variable {x : Except Error α} {y : Except Error β}

theorem refl (x : Except Error α) : Matches Eq x x := by
  cases x with
  | ok a => exact .ok rfl
  | error e => exact .error

/-- What the first run succeeds with decides what the second one does. -/
theorem of_success (hleft : ∀ a, x = .ok a → ∃ b, y = .ok b ∧ R a b)
    (hright : ∀ b, y = .ok b → ∃ a, x = .ok a) : Matches R x y := by
  cases x with
  | ok a =>
      obtain ⟨b, rfl, hvalue⟩ := hleft a rfl
      exact .ok hvalue
  | error e =>
      cases y with
      | ok b => obtain ⟨a, ha⟩ := hright b rfl; cases ha
      | error f => exact .error

theorem isOk_eq (h : Matches R x y) : x.isOk = y.isOk := by
  cases h <;> rfl

theorem eq_ok {a : α} (h : Matches R (.ok a) y) : ∃ b, y = .ok b ∧ R a b := by
  cases h with
  | ok hvalue => exact ⟨_, rfl, hvalue⟩

theorem imp {R' : α → β → Prop} (h : Matches R x y) (hvalue : ∀ a b, R a b → R' a b) :
    Matches R' x y := by
  cases h with
  | ok hab => exact .ok (hvalue _ _ hab)
  | error => exact .error

theorem trans {P : β → γ → Prop} {Q : α → γ → Prop} {z : Except Error γ} (h : Matches R x y)
    (h' : Matches P y z) (hvalue : ∀ a b c, R a b → P b c → Q a c) : Matches Q x z := by
  cases h with
  | ok hab =>
      cases h' with
      | ok hbc => exact .ok (hvalue _ _ _ hab hbc)
  | error =>
      cases h' with
      | error => exact .error

theorem bind {f : α → Except Error γ} {g : β → Except Error δ} (h : Matches R x y)
    (hnext : ∀ a b, R a b → Matches S (f a) (g b)) : Matches S (x >>= f) (y >>= g) := by
  cases h with
  | ok hvalue => exact hnext _ _ hvalue
  | error => exact .error

/-- A step that both runs have in common, and what each does after it. -/
theorem bind_refl {f : α → Except Error γ} {g : α → Except Error δ} (x : Except Error α)
    (hnext : ∀ a, x = .ok a → Matches S (f a) (g a)) : Matches S (x >>= f) (x >>= g) := by
  cases x with
  | ok a => exact hnext a rfl
  | error e => exact .error

theorem onClause {clause : Option α} {clause' : Option β} (hclause : Option.Rel R clause clause')
    {f : α → Except Error γ} {g : β → Except Error δ} (h : ∀ a b, R a b → Matches S (f a) (g b)) :
    Matches (Option.Rel S) (Select.onClause clause f) (Select.onClause clause' g) := by
  cases hclause with
  | none => exact .ok .none
  | some hab => exact (h _ _ hab).bind fun _ _ hvalue => .ok (.some hvalue)

end Matches

/-! ## Attempts -/

namespace Follows

variable {α β γ δ : Type} {excused : Error → Prop} {R : α → β → Prop} {S : γ → δ → Prop}

theorem attempt_map {a : Attempt α} {b : Attempt β} {f : α → γ} {g : β → δ}
    (h : Follows excused R a.toExcept b.toExcept) (hvalue : ∀ v w, R v w → S (f v) (g w)) :
    Follows excused S (a.map f).toExcept (b.map g).toExcept := by
  rw [Attempt.toExcept_map, Attempt.toExcept_map]
  exact h.map hvalue

theorem check {a : Attempt α} {b : Attempt β} {test : α → Except Error Unit}
    {test' : β → Except Error Unit} (h : Follows excused R a.toExcept b.toExcept)
    (htest : ∀ v w, R v w → Follows excused Eq (test v) (test' w)) :
    Follows excused R (a.check test).toExcept (b.check test').toExcept := by
  rw [Attempt.toExcept_check, Attempt.toExcept_check]
  exact h.bind fun v w hvw => (htest v w hvw).bind_eq fun _ => .ok hvw

theorem check_eq {a b : Attempt α} {test test' : α → Except Error Unit}
    (h : Follows excused Eq a.toExcept b.toExcept)
    (htest : ∀ v, Follows excused Eq (test v) (test' v)) :
    Follows excused Eq (a.check test).toExcept (b.check test').toExcept :=
  h.check fun v _ hsame => hsame ▸ htest v

theorem onClause {P : α → β → Prop} {clause : Option α} {clause' : Option β}
    (hclause : Option.Rel P clause clause') {f : α → Except Error γ} {g : β → Except Error δ}
    (h : ∀ a b, P a b → Follows excused S (f a) (g b)) :
    Follows excused (Option.Rel S) (Select.onClause clause f) (Select.onClause clause' g) := by
  cases hclause with
  | none => exact .ok .none
  | some hab => exact (h _ _ hab).map fun _ _ => .some

theorem onClause_eq (clause : Option α) {f g : α → Except Error γ}
    (h : ∀ a, Follows excused Eq (f a) (g a)) :
    Follows excused Eq (Select.onClause clause f) (Select.onClause clause g) := by
  cases clause with
  | none => exact .refl _
  | some value => exact (h value).map fun _ _ => congrArg some

end Follows

theorem FieldRef.toExcept_bind (schema : Schema) (scope : Scope) (field : FieldRef) :
    (field.bind schema scope).toExcept =
      match schema.findField field.name with
      | none => .error (.located .fieldDoesNotExist field.span)
      | some id =>
          let found := { field with id := some id, type := schema.fieldType id }
          (schema.qualifier found scope.table).map fun qualifier => { found with qualifier } := by
  unfold FieldRef.bind
  cases schema.findField field.name with
  | none => rfl
  | some id =>
      dsimp only
      cases schema.qualifier { field with id := some id, type := schema.fieldType id }
        scope.table <;> rfl

namespace Expr

variable {schema : Schema} {scope : Scope}

theorem toExcept_bindAll_cons (test : Expr → Except Error Unit) (e : Expr) (es : List Expr) :
    (bindAll schema scope test (e :: es)).toExcept = (do
      let first ← ((e.bind schema scope).check test).toExcept
      (bindAll schema scope test es).toExcept.map (first :: ·)) := by
  rw [bindAll, Attempt.toExcept_andThen]
  simp only [Attempt.toExcept_map]
  rfl

theorem toExcept_bindParts_condition (m : Mark) (op : Comparison) (left : FieldRef)
    (right : Expr) :
    ((Expr.condition m op left right).bindParts schema scope).toExcept = (do
      let left ← (left.bind schema scope).toExcept
      let right ← ((right.bind schema (scope.withField left)).check
        (checkRight schema op left)).toExcept
      return .condition m op left right) := by
  rw [bindParts, Attempt.toExcept_andThen]
  refine bind_congr fun left => ?_
  rw [Attempt.toExcept_map]
  rfl

theorem toExcept_bindParts_arithmetic (m : Mark) (op : Arithmetic) (left right : Expr)
    (type : DataType) :
    ((Expr.arithmetic m op left right type).bindParts schema scope).toExcept = (do
      let left ← (left.bind schema scope).toExcept
      let right ← (right.bind schema scope).toExcept
      Error.ensure (left.isConst && right.isConst) (.located .expectingConst m.span)
      return .arithmetic m op left right (arithmeticType scope left)) := by
  rw [bindParts, Attempt.toExcept_andThen]
  refine bind_congr fun left => ?_
  rw [Attempt.toExcept_andThen]
  refine bind_congr fun right => ?_
  cases left.isConst && right.isConst <;> rfl

end Expr

end TrackerQuery

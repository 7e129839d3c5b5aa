import TrackerQuery.Attempt

/-!
# Successful outcomes

What is known of a computation that may fail once it has succeeded.  A success
of several steps in a row is a success of each, so later proofs take a stage
apart without unfolding it.
-/

namespace TrackerQuery

section Except

variable {ε α β : Type}

theorem bind_eq_ok_iff {x : Except ε α} {f : α → Except ε β} {b : β} :
    (x >>= f) = .ok b ↔ ∃ a, x = .ok a ∧ f a = .ok b := by
  cases x with
  | error e => simp [bind, Except.bind]
  | ok a => simp [bind, Except.bind]

/-- A check and what is done after it. -/
theorem check_bind_eq_ok_iff {x : Except ε Unit} {f : Unit → Except ε β} {b : β} :
    (x >>= f) = .ok b ↔ x = .ok () ∧ f () = .ok b := by
  cases x with
  | error e => simp [bind, Except.bind]
  | ok u => simp [bind, Except.bind]

theorem for_eq_ok_iff {f : α → Except ε Unit} {l : List α} :
    (do for a in l do f a : Except ε Unit) = .ok () ↔ ∀ a ∈ l, f a = .ok () := by
  simp only [bind_pure_unit]
  induction l with
  | nil => simp [pure, Except.pure]
  | cons a l ih =>
      rw [List.forIn_cons, List.forall_mem_cons, ← ih, bind_assoc, check_bind_eq_ok_iff]
      rfl

theorem map_eq_ok_iff {x : Except ε α} {f : α → β} {b : β} :
    x.map f = .ok b ↔ ∃ a, x = .ok a ∧ f a = b := by
  cases x with
  | error e => simp [Except.map]
  | ok a => simp [Except.map]

theorem bind_pure_eq_error_iff {x : Except ε α} {f : α → β} {e : ε} :
    (x >>= fun a => pure (f a)) = .error e ↔ x = .error e := by
  cases x with
  | error e => simp [bind, Except.bind]
  | ok a => simp [bind, Except.bind, pure, Except.pure]

theorem orM_eq_ok_true_iff {x y : Except ε Bool} :
    (x <||> y) = .ok true ↔ x = .ok true ∨ x = .ok false ∧ y = .ok true := by
  rcases x with e | (_ | _)
  · simp [orM, bind, Except.bind]
  · simp [orM, bind, Except.bind, toBool]
  · simp [orM, bind, Except.bind, toBool, pure, Except.pure]

theorem pure_eq_ok_iff {a b : α} : (pure a : Except ε α) = .ok b ↔ a = b := by
  simp [pure, Except.pure]

theorem guard_eq_some_iff {condition : Prop} [Decidable condition] {u : Unit} :
    (guard condition : Option Unit) = some u ↔ condition := by
  show (if condition then some () else none) = some u ↔ condition
  by_cases hcondition : condition
  · simp [hcondition]
  · simp [hcondition]

theorem toOption_eq_some_iff {x : Except ε α} {a : α} : x.toOption = some a ↔ x = .ok a := by
  cases x <;> simp [Except.toOption]

theorem toOption_bind_eq_some_iff {x : Except ε α} {f : α → Option β} {b : β} :
    (x.toOption >>= f) = some b ↔ ∃ a, x = .ok a ∧ f a = some b := by
  rw [Option.bind_eq_bind, Option.bind_eq_some_iff]
  simp only [toOption_eq_some_iff]

end Except

@[simp]
theorem Error.ensure_eq_ok_iff {condition : Bool} {error : Error} {u : Unit} :
    Error.ensure condition error = .ok u ↔ condition = true := by
  cases condition <;> simp [Error.ensure]

/-! ## Attempts as outcomes -/

theorem Error.bind_ensure_eq_ok_iff {x : Except Error Bool} {error : Bool → Error} {u : Unit} :
    (x >>= fun condition => ensure condition (error condition)) = .ok u ↔ x = .ok true := by
  simp only [bind_eq_ok_iff, ensure_eq_ok_iff, exists_eq_right]

namespace Attempt

variable {α β : Type}

theorem toExcept_map (f : α → β) (a : Attempt α) : (a.map f).toExcept = a.toExcept.map f := by
  rcases a with ⟨value, _ | error, macros⟩ <;> rfl

theorem toExcept_andThen (a : Attempt α) (place : α → β) (next : α → Attempt β) :
    (a.andThen place next).toExcept = a.toExcept >>= fun value => (next value).toExcept := by
  rcases a with ⟨value, _ | error, macros⟩ <;> rfl

theorem toExcept_check (a : Attempt α) (test : α → Except Error Unit) :
    (a.check test).toExcept = (do
      let value ← a.toExcept
      test value
      return value) := by
  rw [check, toExcept_andThen]
  refine bind_congr fun value => ?_
  cases test value <;> rfl

theorem toExcept_list_cons (item : α) (rest : List α) (attempt : α → Attempt α) :
    (list (item :: rest) attempt).toExcept = (do
      let first ← (attempt item).toExcept
      (list rest attempt).toExcept.map (first :: ·)) := by
  rw [list, toExcept_andThen]
  simp only [toExcept_map]

theorem map_eq_ok_iff {a : Attempt α} {f : α → β} {value : β} :
    (a.map f).toExcept = .ok value ↔ ∃ found, a.toExcept = .ok found ∧ f found = value := by
  rw [toExcept_map, TrackerQuery.map_eq_ok_iff]

theorem andThen_eq_ok_iff {a : Attempt α} {place : α → β} {next : α → Attempt β} {value : β} :
    (a.andThen place next).toExcept = .ok value ↔
      ∃ found, a.toExcept = .ok found ∧ (next found).toExcept = .ok value := by
  rw [toExcept_andThen, bind_eq_ok_iff]

theorem check_eq_ok_iff {a : Attempt α} {test : α → Except Error Unit} {value : α} :
    (a.check test).toExcept = .ok value ↔ a.toExcept = .ok value ∧ test value = .ok () := by
  simp only [toExcept_check, bind_eq_ok_iff, pure_eq_ok_iff]
  constructor
  · rintro ⟨found, hfound, ⟨⟩, htest, rfl⟩
    exact ⟨hfound, htest⟩
  · rintro ⟨hvalue, htest⟩
    exact ⟨value, hvalue, (), htest, rfl⟩

end Attempt

end TrackerQuery

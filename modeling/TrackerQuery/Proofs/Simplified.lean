import TrackerQuery.Proofs.Outcome
import TrackerQuery.Simplify

/-!
# Successful simplification

What simplifying an expression has done with its parts.  The operands of `and`
and `or` are known as a collection: which of them are left, and what became of
the others.
-/

namespace TrackerQuery.Expr

variable {reduce : Reduction} {scope : Scope}

/-- Whatever the items become, all of them have what each of them has. -/
theorem forall_of_simplifyAll {P : Expr → Prop} {es ss : List Expr}
    (hes : ∀ e ∈ es, ∀ s, simplifyWith reduce scope e = .ok s → P s)
    (hsimplify : simplifyAll reduce scope es = .ok ss) : ∀ s ∈ ss, P s := by
  induction es generalizing ss with
  | nil =>
      cases hsimplify
      simp
  | cons e es ih =>
      obtain ⟨s, hs, hsimplify⟩ := bind_eq_ok_iff.mp hsimplify
      obtain ⟨others, hothers, hsimplify⟩ := bind_eq_ok_iff.mp hsimplify
      cases hsimplify
      obtain ⟨hfirst, hes⟩ := List.forall_mem_cons.mp hes
      exact List.forall_mem_cons.mpr ⟨hfirst s hs, ih hes hothers⟩

/-- Every operand that is left is a simplified one without a truth value, and
every operand either is left or came to be the identity. -/
theorem foldOperands_eq_some {identity : Bool} {es kept : List Expr}
    (hfold : foldOperands reduce scope identity es = .ok (some kept)) :
    (∀ k ∈ kept, k.truth? = none ∧ ∃ e ∈ es, simplifyWith reduce scope e = .ok k) ∧
      ∀ e ∈ es, ∃ s, simplifyWith reduce scope e = .ok s ∧
        (s ∈ kept ∨ s.truth? = some identity) := by
  induction es generalizing kept with
  | nil =>
      cases hfold
      simp
  | cons e es ih =>
      rw [foldOperands] at hfold
      obtain ⟨s, hs, hfold⟩ := bind_eq_ok_iff.mp hfold
      cases htruth : s.truth? with
      | some value =>
          simp only [htruth] at hfold
          split at hfold
          · rename_i hidentity
            obtain ⟨hkept, hall⟩ := ih hfold
            refine ⟨fun k hk => ?_, fun e' he' => ?_⟩
            · obtain ⟨hnone, e', he', hsimplified⟩ := hkept k hk
              exact ⟨hnone, e', List.mem_cons_of_mem e he', hsimplified⟩
            · rcases List.mem_cons.mp he' with rfl | he'
              · exact ⟨s, hs, .inr (by rw [htruth, beq_iff_eq.mp hidentity])⟩
              · exact hall e' he'
          · cases hfold
      | none =>
          simp only [htruth] at hfold
          obtain ⟨rest, hrest, hfold⟩ := bind_eq_ok_iff.mp hfold
          obtain ⟨others, rfl, rfl⟩ := Option.map_eq_some_iff.mp (pure_eq_ok_iff.mp hfold)
          obtain ⟨hkept, hall⟩ := ih hrest
          refine ⟨fun k hk => ?_, fun e' he' => ?_⟩
          · rcases List.mem_cons.mp hk with rfl | hk
            · exact ⟨htruth, e, List.mem_cons_self, hs⟩
            · obtain ⟨hnone, e', he', hsimplified⟩ := hkept k hk
              exact ⟨hnone, e', List.mem_cons_of_mem e he', hsimplified⟩
          · rcases List.mem_cons.mp he' with rfl | he'
            · exact ⟨s, hs, .inl List.mem_cons_self⟩
            · obtain ⟨s', hs', hplace⟩ := hall e' he'
              exact ⟨s', hs', hplace.imp_left (List.mem_cons_of_mem s)⟩

/-- The operands decide the whole only if one of them came to be the opposite
of the identity. -/
theorem foldOperands_eq_none {identity : Bool} {es : List Expr}
    (hfold : foldOperands reduce scope identity es = .ok none) :
    ∃ e ∈ es, ∃ s, simplifyWith reduce scope e = .ok s ∧ s.truth? = some !identity := by
  induction es with
  | nil => cases hfold
  | cons e es ih =>
      rw [foldOperands] at hfold
      obtain ⟨s, hs, hfold⟩ := bind_eq_ok_iff.mp hfold
      cases htruth : s.truth? with
      | some value =>
          simp only [htruth] at hfold
          split at hfold
          · obtain ⟨e', he', hdecides⟩ := ih hfold
            exact ⟨e', List.mem_cons_of_mem e he', hdecides⟩
          · rename_i hidentity
            refine ⟨e, List.mem_cons_self, s, hs, ?_⟩
            rw [htruth]
            cases value <;> cases identity <;> simp_all
      | none =>
          simp only [htruth] at hfold
          obtain ⟨rest, hrest, hfold⟩ := bind_eq_ok_iff.mp hfold
          rw [Option.map_eq_none_iff.mp (pure_eq_ok_iff.mp hfold)] at hrest
          obtain ⟨e', he', hdecides⟩ := ih hrest
          exact ⟨e', List.mem_cons_of_mem e he', hdecides⟩

theorem simplifyWith_junction {m : Mark} {connective : Connective} {es : List Expr} {e : Expr}
    (hsimplify : simplifyWith reduce scope (.junction m connective es) = .ok e) :
    (∃ kept, foldOperands reduce scope connective.identity es = .ok (some kept) ∧
        reduce scope (ofOperands m connective kept) = .ok e) ∨
      (foldOperands reduce scope connective.identity es = .ok none ∧
        reduce scope (.truth { span := m.span } !connective.identity) = .ok e) := by
  rw [simplifyWith] at hsimplify
  obtain ⟨outcome, hfold, hreduce⟩ := bind_eq_ok_iff.mp hsimplify
  cases outcome with
  | some kept => exact .inl ⟨kept, hfold, hreduce⟩
  | none => exact .inr ⟨hfold, hreduce⟩

/-- A negation meets a negation, a truth value or anything else. -/
theorem simplifyWith_not {m : Mark} {operand e : Expr}
    (hsimplify : simplifyWith reduce scope (.not m operand) = .ok e) :
    ∃ s, simplifyWith reduce scope operand = .ok s ∧
      ((∃ inner, s = .not inner e) ∨
        (∃ inner value, s = .truth inner value ∧
          reduce scope (.truth { span := m.span } !value) = .ok e) ∨
        reduce scope (.not m s) = .ok e) := by
  rw [simplifyWith] at hsimplify
  obtain ⟨s, hs, hreduce⟩ := bind_eq_ok_iff.mp hsimplify
  refine ⟨s, hs, ?_⟩
  split at hreduce
  · exact .inl ⟨_, by rw [pure_eq_ok_iff.mp hreduce]⟩
  · exact .inr (.inl ⟨_, _, rfl, hreduce⟩)
  · exact .inr (.inr hreduce)

theorem simplifyWith_ever {m : Mark} {operand e : Expr}
    (hsimplify : simplifyWith reduce scope (.ever m operand) = .ok e) :
    ∃ s, simplifyWith reduce scope operand = .ok s ∧
      ((∃ inner, s = .ever inner e) ∨
        (∃ inner value, s = .truth inner value ∧
          reduce scope (.truth { span := m.span } value) = .ok e) ∨
        s.truth? = none ∧ reduce scope (.ever m s) = .ok e) := by
  rw [simplifyWith] at hsimplify
  obtain ⟨s, hs, hreduce⟩ := bind_eq_ok_iff.mp hsimplify
  refine ⟨s, hs, ?_⟩
  split at hreduce
  · exact .inl ⟨_, by rw [pure_eq_ok_iff.mp hreduce]⟩
  · exact .inr (.inl ⟨_, _, rfl, hreduce⟩)
  · rename_i hother
    refine .inr (.inr ⟨?_, hreduce⟩)
    cases s with
    | truth m value => exact absurd rfl (hother m value)
    | _ => rfl

theorem simplifyWith_condition {m : Mark} {op : Comparison} {left : FieldRef} {right e : Expr}
    (hsimplify : simplifyWith reduce scope (.condition m op left right) = .ok e) :
    ∃ s, simplifyWith reduce (scope.withField left) right = .ok s ∧
      reduce scope (.condition m op left s) = .ok e := by
  rw [simplifyWith] at hsimplify
  exact bind_eq_ok_iff.mp hsimplify

end TrackerQuery.Expr

import TrackerQuery.Proofs.EverOperand

/-!
# Simplification seen from the leaves

The leaves of a clause are what `and`, `or`, `not` and `ever` put together.  What
simplification makes of a clause follows from what it makes of the leaves: a
property of everything the leaves become passes to the whole, provided the
connectives pass it on.
-/

namespace TrackerQuery

namespace Expr

/-- Neither `and`, `or`, `not` nor `ever`. -/
def isLeaf : Expr → Bool
  | .junction .. | .not .. | .ever .. => false
  | _ => true

theorem Everywhere.self {P : Expr → Prop} {e : Expr} (he : e.Everywhere P) : P e := by
  cases e <;> first | exact he | exact he.1

theorem everywhere_of_forall {P : Expr → Prop} (hP : ∀ e, P e) (e : Expr) : e.Everywhere P := by
  induction e with
  | junction m connective operands ih =>
      exact ⟨hP _, allEverywhere_iff.mpr ih⟩
  | not m operand ih | ever m operand ih => exact ⟨hP _, ih⟩
  | _ => exact hP _

theorem everywhere_imp {c : Prop} {P : Expr → Prop} {e : Expr} (he : c → e.Everywhere P) :
    e.Everywhere fun e => c → P e := by
  by_cases hc : c
  · exact (he hc).imp fun _ hP _ => hP
  · exact everywhere_of_forall (fun _ h => absurd h hc) e

/-- A property that `and`, `or` and `not` pass on, where simplification leaves them:
no operand is a truth value, `and` and `or` have two operands, and `not` does not
stand over itself. -/
structure Hereditary (P : Expr → Prop) : Prop where
  truth : ∀ m value, P (.truth m value)
  junction : ∀ {m connective first second others},
    (∀ operand ∈ first :: second :: others, operand.truth? = none ∧ operand.Everywhere P) →
      P (.junction m connective (first :: second :: others))
  not : ∀ {m operand}, (∀ m' value, operand ≠ .truth m' value) → (∀ m' e, operand ≠ .not m' e) →
    operand.Everywhere P → P (.not m operand)

end Expr

namespace Session

variable {session : Session} {again : Reduction} {scope : Scope} {P : Expr → Prop}

def Yields (session : Session) (again : Reduction) (scope : Scope) (P : Expr → Prop)
    (e : Expr) : Prop :=
  e.isLeaf = true → ∀ s, Expr.simplifyWith (session.reduce again) scope e = .ok s → s.Everywhere P

/-- An `ever` over what simplification makes of its operand has the property, if that
has it. -/
def Admits (session : Session) (again : Reduction) (scope : Scope) (P : Expr → Prop) : Expr → Prop
  | .ever m operand => ∀ s, Expr.simplifyWith (session.reduce again) scope operand = .ok s →
      (∀ m' value, s ≠ .truth m' value) → (∀ m' e, s ≠ .ever m' e) → s.Everywhere P →
        P (.ever m s)
  | _ => True

/-- A property that `ever` passes on too. -/
theorem everywhere_admits (hever : ∀ {m operand}, (∀ m' value, operand ≠ .truth m' value) →
    (∀ m' e, operand ≠ .ever m' e) → operand.Everywhere P → P (.ever m operand)) (e : Expr) :
    e.Everywhere (session.Admits again scope P) := by
  apply Expr.everywhere_of_forall
  intro e
  cases e with
  | ever m operand => exact fun s _ => hever
  | _ => trivial

/-- Operands that are left have the property; a single one is reduced once more. -/
theorem everywhere_of_foldOperands (hP : Expr.Hereditary P)
    (hreduce : ∀ e s, e.isLeaf = true → P e → session.reduce again scope e = .ok s →
      s.Everywhere P)
    {m : Mark} {connective : Connective} {kept : List Expr} {s : Expr}
    (hkept : ∀ k ∈ kept, k.truth? = none ∧ k.Everywhere P)
    (hs : session.reduce again scope (Expr.ofOperands m connective kept) = .ok s) :
    s.Everywhere P := by
  match kept with
  | [] =>
      cases hs
      exact hP.truth _ _
  | [single] =>
      obtain ⟨-, hsingle⟩ := hkept single (by simp)
      by_cases hleaf : single.isLeaf = true
      · exact hreduce single s hleaf hsingle.self hs
      · cases single <;> first | exact absurd rfl hleaf | (cases hs; exact hsingle)
  | first :: second :: others =>
      cases hs
      exact ⟨hP.junction hkept, Expr.allEverywhere_iff.mpr fun k hk => (hkept k hk).2⟩

/-- A property of everything that the leaves become is one of the whole. -/
theorem everywhere_of_yields (hP : Expr.Hereditary P)
    (hreduce : ∀ e s, e.isLeaf = true → P e → session.reduce again scope e = .ok s →
      s.Everywhere P)
    {e : Expr} {s : Expr} (he : e.Everywhere (session.Yields again scope P))
    (hever : e.Everywhere (session.Admits again scope P))
    (hsimplify : Expr.simplifyWith (session.reduce again) scope e = .ok s) : s.Everywhere P := by
  induction e generalizing s with
  | junction m connective operands ih =>
      obtain ⟨kept, hfold, hs⟩ | ⟨-, hs⟩ := Expr.simplifyWith_junction hsimplify
      · apply everywhere_of_foldOperands hP hreduce _ hs
        intro k hk
        obtain ⟨hnone, operand, hoperand, hk⟩ := (Expr.foldOperands_eq_some hfold).1 k hk
        exact ⟨hnone, ih operand hoperand (Expr.allEverywhere_iff.mp he.2 operand hoperand)
          (Expr.allEverywhere_iff.mp hever.2 operand hoperand) hk⟩
      · cases hs
        exact hP.truth _ _
  | not m operand ih =>
      rw [Expr.simplifyWith] at hsimplify
      obtain ⟨operand', hoperand, hs⟩ := bind_eq_ok_iff.mp hsimplify
      have hkept := ih he.2 hever.2 hoperand
      split at hs
      · cases hs
        exact hkept.2
      · cases hs
        exact hP.truth _ _
      · rename_i hnot htruth
        cases hs
        exact ⟨hP.not htruth hnot hkept, hkept⟩
  | ever m operand ih =>
      rw [Expr.simplifyWith] at hsimplify
      obtain ⟨operand', hoperand, hs⟩ := bind_eq_ok_iff.mp hsimplify
      have hkept := ih he.2 hever.2 hoperand
      split at hs
      · cases hs
        exact hkept.2
      · cases hs
        exact hP.truth _ _
      · rename_i hother htruth
        cases hs
        exact ⟨hever.1 operand' hoperand htruth hother hkept, hkept⟩
  | _ => exact he rfl s hsimplify

end Session

end TrackerQuery

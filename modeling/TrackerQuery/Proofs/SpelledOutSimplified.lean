import TrackerQuery.Proofs.AlikeDocument
import TrackerQuery.Proofs.Moved
import TrackerQuery.Proofs.SpelledOut

/-!
# Simplifying lists that are spelled out

The values of an `in` list are simplified before the list becomes a choice, and the
choice is simplified again; spelled out, each value is simplified with its comparison.  A
simplified value stays as it is, and so does what a comparison by `=` is reduced to, so both
come to the same up to places and parentheses.
-/

namespace TrackerQuery.Session

variable {session : Session} {scope : Scope} {again : Reduction} {m : Mark} {left : FieldRef}
variable {right : Expr}

theorem splitDay_equals {text : String} {span : Span} {e : Expr}
    (hsplit : session.splitDay scope m .equals left text span = .ok e) :
    ∃ es, e = .junction m .and es := by
  unfold splitDay at hsplit
  obtain ⟨t, -, hsplit⟩ := bind_eq_ok_iff.mp hsplit
  obtain ⟨_, -, hsplit⟩ := bind_eq_ok_iff.mp hsplit
  split at hsplit
  · cases hsplit
  · obtain ⟨c, hc, hmark⟩ := bind_eq_ok_iff.mp hsplit
    obtain ⟨es, -, rfl⟩ := bind_junction_eq_ok_iff.mp hc
    cases hmark
    exact ⟨es, rfl⟩

/-- Reduction leaves the expression as it is, whatever it does with lists. -/
def Kept (session : Session) (scope : Scope) (e : Expr) : Prop :=
  ∀ again, session.reduce again scope e = .ok e

/-- A comparison by `=` is reduced once, and never to a truth value. -/
theorem kept_of_equals {e : Expr}
    (hreduce : session.reduceCondition again scope m .equals left right = .ok e) :
    e.truth? = none ∧ session.Kept scope e := by
  cases reduced_of_reduceCondition hreduce with
  | choice _ _ hop => cases hop
  | emptySearch hop => cases hop
  | present _ hop => cases hop
  | same _ he =>
      subst he
      exact ⟨rfl, fun again' => (reduceCondition_congr (by decide) again' again).trans hreduce⟩
  | day _ _ _ _ _ _ he =>
      obtain ⟨es, rfl⟩ := splitDay_equals he
      exact ⟨rfl, fun _ => rfl⟩
  | project _ _ _ _ hnonempty he =>
      obtain ⟨hresolved, area, harea, rfl⟩ := projectCondition_eq_ok he
      exact ⟨rfl, (stable_under harea hnonempty hresolved).reduce⟩

theorem kept_of_simplify_equals {e : Expr}
    (hsimplify : Expr.simplifyWith (session.reduce again) scope
      (.condition m .equals left right) = .ok e) :
    e.truth? = none ∧ session.Kept scope e := by
  obtain ⟨value, -, hreduce⟩ := Expr.simplifyWith_condition hsimplify
  exact kept_of_equals hreduce

theorem reduce_ofOperands {connective : Connective} {es : List Expr}
    (hes : ∀ e ∈ es, session.Kept scope e) :
    session.reduce again scope (Expr.ofOperands m connective es) =
      .ok (Expr.ofOperands m connective es) := by
  match es with
  | [] => rfl
  | [e] => exact hes e List.mem_cons_self again
  | _ :: _ :: _ => rfl

/-- Two steps for the first item and for the items after it, step by step or item by item. -/
theorem matches_interleaved {α β γ : Type} {R : β → γ → Prop} {x : Except Error α}
    {xs : Except Error (List α)} {f : α → Except Error β} {g : List α → Except Error (List β)}
    {y : Except Error γ} {ys : Except Error (List γ)} (hfirst : Matches R (x >>= f) y)
    (hothers : Matches (List.Forall₂ R) (xs >>= g) ys) :
    Matches (List.Forall₂ R)
      (do
        let a ← x
        let as ← xs
        let b ← f a
        let bs ← g as
        return b :: bs)
      (do
        let c ← y
        let cs ← ys
        return c :: cs) := by
  cases x with
  | error e =>
      cases hfirst
      exact .error
  | ok a =>
      cases xs with
      | error e =>
          cases hothers
          cases y <;> exact .error
      | ok as =>
          exact hfirst.bind fun _ _ hb => hothers.bind fun _ _ hbs => .ok (.cons hb hbs)

/-- Simplified comparisons: the same up to places and parentheses, and kept. -/
structure Settle (session : Session) (scope : Scope) (e e' : Expr) : Prop where
  alike : e.Alike FieldRef.Moved e'
  kept : session.Kept scope e
  kept' : session.Kept scope e'

theorem moved_refl (e : Expr) : e.Alike FieldRef.Moved e :=
  Expr.alike_of_unplaced (fun _ _ h => h) rfl

/-- A value that is simplified before it is compared, and one that is simplified with its
comparison. -/
theorem matches_simplify_item (again again' : Reduction) {item e : Expr}
    (hvalue : item.isValue = true) (hasserts : Expr.Asserts left item e) :
    Matches (session.Settle scope)
      (do
        let value ← Expr.simplifyWith (session.reduce again) (scope.withField left) item
        Expr.simplifyWith (session.reduce again') scope (Expr.compare .equals left value))
      (Expr.simplifyWith (session.reduce again) scope e) := by
  obtain ⟨m, rfl⟩ := hasserts
  rw [Expr.simplifyWith]
  refine .bind_refl _ fun value hsimplify => ?_
  obtain ⟨-, hconst, hsettled⟩ := operandValue?_of_simplifyWith_const item value
    (Bool.and_eq_true_iff.mp hvalue).2 hsimplify
  have hcompare : Expr.simplifyWith (session.reduce again') scope
      (Expr.compare .equals left value) =
        session.reduceCondition again' scope { span := left.span.cover value.span } .equals left
          value := by
    rw [Expr.compare, Expr.simplifyWith, simplifyWith_of_settled_const value hconst hsettled]
    rfl
  have hagree : Agree (Expr.Alike FieldRef.Moved)
      (session.reduceCondition again' scope { span := left.span.cover value.span } .equals left
        value)
      (session.reduceCondition again scope m .equals left value) := by
    rw [reduceCondition_congr (by decide) again' fun _ e => .ok e,
      reduceCondition_congr (by decide) again fun _ e => .ok e]
    exact agree_reduceCondition (FieldRef.carried_moved _) (fun _ h => .ok h) ⟨rfl, rfl⟩ rfl
      (moved_refl value) .equals
  rw [hcompare]
  show Matches _ _ (session.reduceCondition again scope m .equals left value)
  obtain ⟨r, r', hr, hr', halike⟩ | ⟨e, f, he, hf, -⟩ := hagree.ok_or_error
  · rw [hr, hr']
    exact .ok ⟨halike, (kept_of_equals hr).2, (kept_of_equals hr').2⟩
  · rw [he, hf]
    exact .error

/-- Values and the comparisons with them are simplified to the same. -/
theorem matches_simplify_items (again again' : Reduction) {items es : List Expr}
    (hvalues : ∀ item ∈ items, item.isValue = true)
    (hasserts : List.Forall₂ (Expr.Asserts left) items es) :
    Matches (List.Forall₂ (session.Settle scope))
      (do
        let values ← Expr.simplifyAll (session.reduce again) (scope.withField left) items
        Expr.simplifyAll (session.reduce again') scope (values.map (Expr.compare .equals left)))
      (Expr.simplifyAll (session.reduce again) scope es) := by
  induction hasserts with
  | nil => exact .ok .nil
  | @cons item e items es hfirst _ ih =>
      obtain ⟨hvalue, hvalues⟩ := List.forall_mem_cons.mp hvalues
      have hboth := matches_interleaved (matches_simplify_item again again' hvalue hfirst)
        (ih hvalues)
      rw [Expr.simplifyAll, Expr.simplifyAll]
      refine Eq.subst (motive := fun x => Matches _ x _) ?_ hboth
      cases Expr.simplifyWith (session.reduce again) (scope.withField left) item with
      | error e => rfl
      | ok value =>
          cases Expr.simplifyAll (session.reduce again) (scope.withField left) items <;> rfl

/-- The truth of no operand is known, so all of them are left. -/
theorem foldOperands_eq_simplifyAll {reduce : Reduction} {identity : Bool} {es : List Expr}
    (hes : ∀ e ∈ es, ∀ s, Expr.simplifyWith reduce scope e = .ok s → s.truth? = none) :
    Expr.foldOperands reduce scope identity es =
      (Expr.simplifyAll reduce scope es).map some := by
  induction es with
  | nil => rfl
  | cons e es ih =>
      obtain ⟨hfirst, hothers⟩ := List.forall_mem_cons.mp hes
      rw [Expr.foldOperands, Expr.simplifyAll, ih hothers]
      cases hs : Expr.simplifyWith reduce scope e with
      | error e => rfl
      | ok s =>
          simp only [Bind.bind, Except.bind, hfirst s hs]
          cases Expr.simplifyAll reduce scope es <;> rfl

theorem simplifyWith_assertions {items es : List Expr}
    (hasserts : List.Forall₂ (Expr.Asserts left) items es) :
    Expr.simplifyWith (session.reduce again) scope (.junction m .or es) = (do
      let es ← Expr.simplifyAll (session.reduce again) scope es
      session.reduce again scope (Expr.ofOperands m .or es)) := by
  have hes : ∀ e ∈ es, ∃ item, Expr.Asserts left item e :=
    (forall₂_and_right_iff.mp (hasserts.imp fun item _ he => ⟨he, item, he⟩)).2
  have htruth : ∀ e ∈ es, ∀ s, Expr.simplifyWith (session.reduce again) scope e = .ok s →
      s.truth? = none := by
    intro e he s hs
    obtain ⟨item, m, rfl⟩ := hes e he
    exact (kept_of_simplify_equals hs).1
  rw [Expr.simplifyWith, foldOperands_eq_simplifyAll htruth]
  cases Expr.simplifyAll (session.reduce again) scope es <;> rfl

theorem simplifyWith_oneOf {listMark : Mark} {items : List Expr}
    (hdirection : left.direction = .unspecified) :
    Expr.simplifyWith (session.reduce (Expr.simplifyWith (session.reduce again))) scope
        (.condition m .oneOf left (.list listMark items)) = (do
      let es ← (do
        let values ← Expr.simplifyAll
          (session.reduce (Expr.simplifyWith (session.reduce again))) (scope.withField left) items
        Expr.simplifyAll (session.reduce again) scope
          (values.map (Expr.compare .equals left)))
      session.reduce again scope (Expr.ofOperands m .or es)) := by
  have hreference : left.reference = left := by
    rw [FieldRef.reference, ← hdirection]
  rw [Expr.simplifyWith, Expr.simplifyWith]
  cases Expr.simplifyAll (session.reduce (Expr.simplifyWith (session.reduce again)))
    (scope.withField left) items with
  | error e => rfl
  | ok values =>
      have hchoice : alternatives m left values =
          .junction m .or (values.map (Expr.compare .equals left)) := by
        rw [alternatives, hreference]
        rfl
      show Expr.simplifyWith (session.reduce again) scope (alternatives m left values) = _
      rw [hchoice, simplifyWith_assertions (Expr.asserts_compare left values)]
      rfl

/-- A list is simplified to the choice that it stands for. -/
theorem matches_simplify_choice {listMark m' : Mark} {items es : List Expr}
    (hdirection : left.direction = .unspecified) (hvalues : ∀ item ∈ items, item.isValue = true)
    (hasserts : List.Forall₂ (Expr.Asserts left) items es) :
    Matches (Expr.Alike FieldRef.Moved)
      (Expr.simplifyWith (session.reduce (Expr.simplifyWith (session.reduce again))) scope
        (.condition m .oneOf left (.list listMark items)))
      (do
        let es ← Expr.simplifyAll (session.reduce (Expr.simplifyWith (session.reduce again))) scope
          es
        session.reduce (Expr.simplifyWith (session.reduce again)) scope
          (Expr.ofOperands m' .or es)) := by
  rw [simplifyWith_oneOf hdirection]
  refine (matches_simplify_items _ again hvalues hasserts).bind fun rs rs' hrs => ?_
  obtain ⟨hkept, halike⟩ := (List.forall₂_and_left rs rs').mp
    (hrs.imp fun _ _ h => ⟨h.kept, h.alike⟩)
  obtain ⟨-, hkept'⟩ := forall₂_and_right_iff.mp (hrs.imp fun _ _ h => ⟨h.alike, h.kept'⟩)
  rw [reduce_ofOperands hkept, reduce_ofOperands hkept']
  exact .ok (Expr.alike_ofOperands halike)

theorem simplifyWith_eq_single (m : Mark) {item e : Expr} (hasserts : Expr.Asserts left item e) :
    Expr.simplifyWith (session.reduce again) scope e = (do
      let es ← Expr.simplifyAll (session.reduce again) scope [e]
      session.reduce again scope (Expr.ofOperands m .or es)) := by
  obtain ⟨m, rfl⟩ := hasserts
  rw [Expr.simplifyAll, Expr.simplifyAll]
  cases hs : Expr.simplifyWith (session.reduce again) scope (.condition m .equals left item) with
  | error e => rfl
  | ok s => exact ((kept_of_simplify_equals hs).2 again).symm

theorem matches_foldOperands {reduce : Reduction} {R : FieldRef → FieldRef → Prop}
    (identity : Bool) {es es' : List Expr}
    (h : List.Forall₂ (fun e e' => Matches (Expr.Alike R) (Expr.simplifyWith reduce scope e)
      (Expr.simplifyWith reduce scope e')) es es') :
    Matches (Option.Rel (List.Forall₂ (Expr.Alike R)))
      (Expr.foldOperands reduce scope identity es)
      (Expr.foldOperands reduce scope identity es') := by
  induction h with
  | nil => exact .ok (.some .nil)
  | cons hfirst _ ih =>
      rw [Expr.foldOperands, Expr.foldOperands]
      refine hfirst.bind fun e e' he => ?_
      rw [he.truth?_eq]
      cases e'.truth? with
      | some value =>
          dsimp only
          split
          · exact ih
          · exact .ok .none
      | none =>
          refine ih.bind fun kept kept' hkept => .ok ?_
          cases hkept with
          | none => exact .none
          | some hkept => exact .some (.cons he hkept)

/-- An expression is simplified to the same with a list and with the list spelled out. -/
theorem matches_simplify {e e' : Expr} (h : e.SpelledOut e') :
    Matches (Expr.Alike FieldRef.Moved) (session.simplify scope e) (session.simplify scope e') := by
  have hcarried := FieldRef.carried_moved session.catalog
  have hreduce : (session.reduce (Expr.simplifyRounds session.reduce 1)).Alike FieldRef.Moved
      (session.reduce (Expr.simplifyRounds session.reduce 1)) :=
    agree_reduce hcarried (agree_simplifyRounds hcarried 1)
  have hscope : scope.Alike scope := ⟨rfl, rfl⟩
  induction h with
  | one hdirection hvalue =>
      show Matches _ _ (Expr.simplifyWith _ scope _)
      rw [simplifyWith_eq_single {} ⟨_, rfl⟩]
      exact matches_simplify_choice hdirection (by simpa using hvalue) (.cons ⟨_, rfl⟩ .nil)
  | many hdirection hvalues hmany hasserts =>
      show Matches _ _ (Expr.simplifyWith _ scope _)
      rw [simplifyWith_assertions hasserts]
      exact matches_simplify_choice hdirection hvalues hasserts
  | @not m e e' h ih =>
      show Matches _ (Expr.simplifyWith _ scope _) (Expr.simplifyWith _ scope _)
      rw [Expr.simplifyWith, Expr.simplifyWith]
      refine ih.bind fun operand operand' hoperand => ?_
      have hnot : Expr.Alike FieldRef.Moved (.not m operand) (.not m operand') := .not hoperand
      cases hoperand with
      | not hinner => exact .ok hinner
      | truth => exact .ok .truth
      | _ => exact .ok hnot
  | @junction m connective before after e e' h ih =>
      show Matches _ (Expr.simplifyWith _ scope _) (Expr.simplifyWith _ scope _)
      rw [Expr.simplifyWith, Expr.simplifyWith]
      have hsame : ∀ es : List Expr, List.Forall₂ (fun e e' => Matches (Expr.Alike FieldRef.Moved)
          (session.simplify scope e) (session.simplify scope e')) es es := fun es =>
        List.forall₂_same.mpr fun e _ => (Matches.refl _).imp fun _ _ heq => heq ▸ moved_refl _
      refine (matches_foldOperands _ (List.rel_append (hsame before)
        (.cons ih (hsame after)))).bind fun kept kept' hkept => ?_
      cases hkept with
      | none => exact .ok .truth
      | some hkept => exact (hreduce hscope (Expr.alike_ofOperands hkept)).matches

end TrackerQuery.Session

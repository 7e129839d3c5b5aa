import TrackerQuery.Proofs.Reduction
import TrackerQuery.Proofs.Simplified

/-!
# What stands under `ever`

Resolving admits only a single condition with `=` or a search under `ever`.
Simplification may turn that condition into a truth value or a team project
into its area, but it never leaves a negated or compound operand there.
-/

namespace TrackerQuery

namespace Expr

mutual

/-- A property of every expression that `and`, `or`, `not` and `ever` put
together, down to the conditions. -/
def Everywhere (P : Expr → Prop) : Expr → Prop
  | .junction m connective operands =>
      P (.junction m connective operands) ∧ AllEverywhere P operands
  | .not m operand => P (.not m operand) ∧ Everywhere P operand
  | .ever m operand => P (.ever m operand) ∧ Everywhere P operand
  | e => P e
termination_by structural e => e

def AllEverywhere (P : Expr → Prop) : List Expr → Prop
  | [] => True
  | e :: es => Everywhere P e ∧ AllEverywhere P es
termination_by structural es => es

end

theorem allEverywhere_iff {P : Expr → Prop} {es : List Expr} :
    AllEverywhere P es ↔ ∀ e ∈ es, e.Everywhere P := by
  induction es with
  | nil => simp [AllEverywhere]
  | cons e es ih => simp [AllEverywhere, ih]

theorem Everywhere.imp {P Q : Expr → Prop} (hPQ : ∀ e, P e → Q e) {e : Expr}
    (he : e.Everywhere P) : e.Everywhere Q := by
  induction e with
  | junction m connective operands ih =>
      refine ⟨hPQ _ he.1, allEverywhere_iff.mpr fun e hmem => ih e hmem ?_⟩
      exact allEverywhere_iff.mp he.2 e hmem
  | not m operand ih => exact ⟨hPQ _ he.1, ih he.2⟩
  | ever m operand ih => exact ⟨hPQ _ he.1, ih he.2⟩
  | _ => exact hPQ _ he

theorem Everywhere.and {P Q : Expr → Prop} {e : Expr} (hP : e.Everywhere P)
    (hQ : e.Everywhere Q) : e.Everywhere fun e => P e ∧ Q e := by
  induction e with
  | junction m connective operands ih =>
      refine ⟨⟨hP.1, hQ.1⟩, allEverywhere_iff.mpr fun e he => ih e he ?_ ?_⟩
      · exact allEverywhere_iff.mp hP.2 e he
      · exact allEverywhere_iff.mp hQ.2 e he
  | not m operand ih | ever m operand ih => exact ⟨⟨hP.1, hQ.1⟩, ih hP.2 hQ.2⟩
  | _ => exact ⟨hP, hQ⟩

/-- What holds of every resolved clause holds everywhere in a resolved expression,
below its top. -/
theorem everywhere_of_resolved {schema : Schema} {scope : Scope} {P : Expr → Prop}
    (hP : ∀ e, e.Resolved schema scope → e.dataType = .bool → P e) (e : Expr)
    (hresolved : e.Resolved schema scope) (hself : P e) : e.Everywhere P := by
  induction e with
  | junction m connective operands ih =>
      refine ⟨hself, allEverywhere_iff.mpr fun operand hoperand => ?_⟩
      obtain ⟨hresolved, hboolean⟩ := allResolved_iff.mp hresolved.1 operand hoperand
      have htype := ensureBoolean_eq_ok_iff.mp hboolean
      exact ih operand hoperand hresolved (hP operand hresolved htype)
  | not m operand ih | ever m operand ih =>
      obtain ⟨⟨hresolved, hboolean⟩, -⟩ := hresolved
      have htype := ensureBoolean_eq_ok_iff.mp hboolean
      exact ⟨hself, ih hresolved (hP operand hresolved htype)⟩
  | _ => exact hself

/-- An `ever` stands over a condition, and not over one with `<>`. -/
def everOverCondition : Expr → Prop
  | .ever _ (.condition _ op _ _) => op ≠ .notEquals
  | .ever _ _ => False
  | _ => True

theorem everywhere_everOverCondition_withMark {e : Expr} (m : Mark)
    (he : e.Everywhere everOverCondition) : (e.withMark m).Everywhere everOverCondition := by
  cases e with
  | junction m' connective operands => exact ⟨trivial, he.2⟩
  | not m' operand => exact ⟨trivial, he.2⟩
  | ever m' operand =>
      refine ⟨?_, he.2⟩
      cases operand with
      | condition m'' op left right => exact he.1
      | _ => exact he.1.elim
  | _ => trivial

end Expr

namespace Session

/-- An `ever` stands over what the server admits there. -/
def everAdmitted (session : Session) : Expr → Prop
  | .ever m operand => session.verifyEver operand m.span = .ok ()
  | _ => True

variable {session : Session}

theorem verifyEver_eq_ok {operand : Expr} {span : Span}
    (hverify : session.verifyEver operand span = .ok ()) :
    ∃ m op left right, operand = .condition m op left right ∧
      (op = .equals ∨ op.isSearch = true) ∧
      (left.type = .date → session.settings.dayPrecision = true →
        right.literal? = some "") := by
  unfold verifyEver at hverify
  split at hverify
  · rename_i m op left right
    refine ⟨m, op, left, right, rfl, ?_, ?_⟩
    · obtain ⟨_, hop, -⟩ := bind_eq_ok_iff.mp hverify
      simpa using hop
    · intro hdate hday
      obtain ⟨_, -, hverify⟩ := bind_eq_ok_iff.mp hverify
      simp only [hdate, hday, beq_self_eq_true, Bool.and_self, if_true] at hverify
      obtain ⟨_, hliteral, -⟩ := bind_eq_ok_iff.mp hverify
      simpa using hliteral
  · cases hverify

theorem everAdmitted_of_resolved {e : Expr} {scope : Scope}
    (hresolved : e.Resolved session.schema scope) : session.everAdmitted e := by
  cases e with
  | ever m operand => exact hresolved.2
  | _ => trivial

theorem everywhere_everAdmitted_of_resolved (e : Expr) (scope : Scope)
    (hresolved : e.Resolved session.schema scope) : e.Everywhere session.everAdmitted :=
  Expr.everywhere_of_resolved (fun _ h _ => everAdmitted_of_resolved h) e hresolved
    (everAdmitted_of_resolved hresolved)

theorem everOverCondition_of_everAdmitted {e : Expr} (he : session.everAdmitted e) :
    e.everOverCondition := by
  cases e with
  | ever m operand =>
      obtain ⟨m', op, left, right, rfl, hop, -⟩ := verifyEver_eq_ok he
      rintro rfl
      simp [Comparison.isSearch] at hop
  | _ => trivial

theorem everywhere_everOverCondition_of_resolved {e : Expr} {scope : Scope}
    (hresolved : e.Resolved session.schema scope) : e.Everywhere Expr.everOverCondition :=
  (everywhere_everAdmitted_of_resolved e scope hresolved).imp fun _ =>
    everOverCondition_of_everAdmitted

def KeepsEver (session : Session) (simplify : Reduction) : Prop :=
  ∀ scope e s, e.Everywhere session.everAdmitted → simplify scope e = .ok s →
    s.Everywhere Expr.everOverCondition

variable {again : Reduction} {scope : Scope}

/-- Whatever a condition is reduced to, an `ever` in it stands over a
condition. -/
theorem everywhere_of_reduceCondition (hagain : session.KeepsEver again) {m : Mark}
    {op : Comparison} {left : FieldRef} {right e : Expr}
    (hreduce : session.reduceCondition again scope m op left right = .ok e) :
    e.Everywhere Expr.everOverCondition := by
  cases reduced_of_reduceCondition hreduce with
  | choice listMark items hop hright hchoice =>
      refine hagain scope (alternatives m left items) e ⟨trivial, ?_⟩ hchoice
      refine Expr.allEverywhere_iff.mpr fun item hitem => ?_
      obtain ⟨value, -, rfl⟩ := List.mem_map.mp hitem
      trivial
  | emptySearch hop htext he => rw [he]; trivial
  | project project hop hid htext hproject he =>
      exact everywhere_everOverCondition_of_resolved (projectCondition_eq_ok he).1
  | day text hop hday htype htext hnonempty he =>
      obtain ⟨c, rfl, hresolved | ⟨op', right', rfl⟩⟩ := splitDay_eq_ok he
      · exact Expr.everywhere_everOverCondition_withMark m
          (everywhere_everOverCondition_of_resolved hresolved)
      · trivial
  | present id hop hid hpresent htext he => rw [he]; trivial
  | same hop he => rw [he]; trivial

theorem everywhere_of_reduce (hagain : session.KeepsEver again) {e s : Expr}
    (he : e.Everywhere Expr.everOverCondition) (hreduce : session.reduce again scope e = .ok s) :
    s.Everywhere Expr.everOverCondition := by
  cases e with
  | condition m op left right => exact everywhere_of_reduceCondition hagain hreduce
  | var m v =>
      cases hreduce
      obtain ⟨_, _, hs⟩ | ⟨_, _, hs⟩ | hs := session.inlineVariable_cases m v <;>
        rw [hs] <;> trivial
  | arithmetic m op left right type =>
      obtain ⟨_, _, hs⟩ | ⟨_, _, hs⟩ | hs := foldArithmetic_eq_ok hreduce <;> rw [hs] <;> trivial
  | _ =>
      cases hreduce
      exact he

theorem simplifyWith_literal {e : Expr} {text : String} (htext : e.literal? = some text)
    (scope : Scope) : Expr.simplifyWith (session.reduce again) scope e = .ok e := by
  cases e <;> first | rfl | cases htext

/-- A condition that is admitted under `ever` becomes a truth value or a
condition without `<>`. -/
theorem simplifyWith_everOperand {m : Mark} {op : Comparison} {left : FieldRef} {right s : Expr}
    (hop : op = .equals ∨ op.isSearch = true)
    (hday : left.type = .date → session.settings.dayPrecision = true → right.literal? = some "")
    (hsimplify : Expr.simplifyWith (session.reduce again) scope (.condition m op left right) =
      .ok s) :
    (∃ m' value, s = .truth m' value) ∨
      ∃ m' op' left' right', s = .condition m' op' left' right' ∧ op' ≠ .notEquals := by
  obtain ⟨right', hright, hreduce⟩ := Expr.simplifyWith_condition hsimplify
  have hnotList : op ≠ .oneOf := by
    rintro rfl
    simp [Comparison.isSearch] at hop
  have hnotNegated : op ≠ .notEquals := by
    rintro rfl
    simp [Comparison.isSearch] at hop
  cases reduced_of_reduceCondition hreduce with
  | choice listMark items hlist => exact absurd hlist hnotList
  | emptySearch hsearch htext he => exact .inl ⟨_, _, he⟩
  | project project _ hid htext hproject he =>
      obtain ⟨-, area, -, hs⟩ := projectCondition_eq_ok he
      rw [if_neg hnotNegated] at hs
      exact .inr ⟨_, _, _, _, hs, by simp⟩
  | day text _ hprecise hdate htext hnonempty he =>
      have hempty := hday hdate hprecise
      rw [simplifyWith_literal hempty] at hright
      cases hright
      rw [hempty] at htext
      cases htext
      exact absurd rfl hnonempty
  | present id hnegated => exact absurd hnegated hnotNegated
  | same _ he => exact .inr ⟨_, _, _, _, he, hnotNegated⟩

/-- After simplification an `ever` still stands over a condition. -/
theorem everywhere_of_simplifyWith (hagain : session.KeepsEver again) (e : Expr) (scope : Scope)
    (s : Expr) (he : e.Everywhere session.everAdmitted)
    (hsimplify : Expr.simplifyWith (session.reduce again) scope e = .ok s) :
    s.Everywhere Expr.everOverCondition := by
  induction e generalizing scope s with
  | condition m op left right ih =>
      obtain ⟨right', -, hreduce⟩ := Expr.simplifyWith_condition hsimplify
      exact everywhere_of_reduceCondition hagain hreduce
  | junction m connective operands ih =>
      obtain ⟨kept, hfold, hreduce⟩ | ⟨-, hreduce⟩ := Expr.simplifyWith_junction hsimplify
      · have hkept : ∀ k ∈ kept, k.Everywhere Expr.everOverCondition := by
          intro k hk
          obtain ⟨-, operand, hoperand, hk⟩ := (Expr.foldOperands_eq_some hfold).1 k hk
          exact ih operand hoperand scope k (Expr.allEverywhere_iff.mp he.2 operand hoperand) hk
        refine everywhere_of_reduce hagain ?_ hreduce
        match kept with
        | [] => trivial
        | [single] => exact hkept single (by simp)
        | first :: second :: others => exact ⟨trivial, Expr.allEverywhere_iff.mpr hkept⟩
      · cases hreduce
        trivial
  | not m operand ih =>
      obtain ⟨operand', hoperand, hcases⟩ := Expr.simplifyWith_not hsimplify
      have hplain := ih scope operand' he.2 hoperand
      obtain ⟨inner, rfl⟩ | ⟨inner, value, rfl, hreduce⟩ | hreduce := hcases
      · exact hplain.2
      · cases hreduce
        trivial
      · cases hreduce
        exact ⟨trivial, hplain⟩
  | ever m operand ih =>
      obtain ⟨operand', hoperand, hcases⟩ := Expr.simplifyWith_ever hsimplify
      obtain ⟨m', op, left, right, rfl, hop, hday⟩ := verifyEver_eq_ok he.1
      obtain ⟨inner, value, rfl⟩ | ⟨inner, op', left', right', rfl, hop'⟩ :=
        simplifyWith_everOperand hop hday hoperand
      · obtain ⟨_, hs⟩ | ⟨_, _, -, hreduce⟩ | ⟨hnone, -⟩ := hcases
        · cases hs
        · cases hreduce
          trivial
        · cases hnone
      · obtain ⟨_, hs⟩ | ⟨_, _, hs, -⟩ | ⟨-, hreduce⟩ := hcases
        · cases hs
        · cases hs
        · cases hreduce
          exact ⟨hop', trivial⟩
  | list m items ih =>
      obtain ⟨items', -, hreduce⟩ := bind_eq_ok_iff.mp hsimplify
      cases hreduce
      trivial
  | arithmetic m op left right type ihleft ihright =>
      obtain ⟨left', -, hsimplify⟩ := bind_eq_ok_iff.mp hsimplify
      obtain ⟨right', -, hreduce⟩ := bind_eq_ok_iff.mp hsimplify
      refine everywhere_of_reduce hagain ?_ hreduce
      trivial
  | _ => exact everywhere_of_reduce hagain (by trivial) hsimplify

/-- In a simplified expression an `ever` stands over a condition. -/
theorem everywhere_everOverCondition_of_simplify {e s : Expr} {scope : Scope}
    (he : e.Resolved session.schema scope) (hsimplify : session.simplify scope e = .ok s) :
    s.Everywhere Expr.everOverCondition := by
  have hrounds : ∀ rounds, session.KeepsEver (Expr.simplifyRounds session.reduce rounds) := by
    intro rounds
    induction rounds with
    | zero =>
        intro scope e s he hs
        cases hs
        exact he.imp fun _ => everOverCondition_of_everAdmitted
    | succ rounds ih =>
        intro scope e s he hs
        exact everywhere_of_simplifyWith ih e scope s he hs
  exact hrounds 2 scope e s (everywhere_everAdmitted_of_resolved e scope he) hsimplify

end Session

end TrackerQuery

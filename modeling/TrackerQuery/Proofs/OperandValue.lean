import TrackerQuery.Proofs.Reduction
import TrackerQuery.Proofs.Simplified

/-!
# The value on the right of a comparison

The right side of a condition stands for a value: macros give way to what they
stand for and arithmetic is carried out.  Simplification replaces the right side
by this value, and a value stands for itself.
-/

namespace TrackerQuery

def Expr.isOperand : Expr → Bool
  | .field .. => true
  | e => e.isConst

namespace Expr

theorem isOperand_of_isConst {e : Expr} (hconst : e.isConst = true) : e.isOperand = true := by
  cases e with
  | field m f => rfl
  | _ => exact hconst

theorem allConst_iff {es : List Expr} : allConst es = true ↔ ∀ e ∈ es, e.isConst = true := by
  induction es with
  | nil => simp [allConst]
  | cons e es ih => simp [allConst, ih]

theorem isConst_of_resolved_list {schema : Schema} {scope : Scope} {m : Mark} {items : List Expr}
    (hresolved : (Expr.list m items).Resolved schema scope) :
    (Expr.list m items).isConst = true := by
  apply allConst_iff.mpr
  intro item hitem
  exact Error.ensure_eq_ok_iff.mp (allResolved_iff.mp hresolved.1 item hitem).2

theorem isConst_of_resolved_arithmetic {schema : Schema} {scope : Scope} {m : Mark}
    {op : Arithmetic} {left right : Expr} {type : DataType}
    (hresolved : (Expr.arithmetic m op left right type).Resolved schema scope) :
    (Expr.arithmetic m op left right type).isConst = true := by
  obtain ⟨-, -, hleft, hright, -⟩ := hresolved.1
  exact Bool.and_eq_true_iff.mpr ⟨hleft, hright⟩

end Expr

namespace Session

mutual

/-- The value that an expression stands for in a scope. -/
def operandValue? (session : Session) (scope : Scope) : Expr → Option Expr
  | .var m v => some (session.inlineVariable m v)
  | .arithmetic m op left right type =>
      (operandValue? session scope left).bind fun left =>
        (operandValue? session scope right).bind fun right =>
          (session.foldArithmetic scope m op left right type).toOption
  | .list m items => (operandValues? session scope items).map (.list m)
  | e => some e
termination_by structural e => e

def operandValues? (session : Session) (scope : Scope) : List Expr → Option (List Expr)
  | [] => some []
  | e :: es =>
      (operandValue? session scope e).bind fun value =>
        (operandValues? session scope es).map (value :: ·)
termination_by structural es => es

end

variable {session : Session} {again : Reduction} {scope : Scope}

/-- An expression that stands for itself. -/
def Settled (session : Session) (scope : Scope) (e : Expr) : Prop :=
  session.operandValue? scope e = some e

theorem settled_string (m : Mark) (text : String) : session.Settled scope (.string m text) := rfl

theorem settled_number (m : Mark) (text : String) : session.Settled scope (.number m text) := rfl

/-- A macro that has a value does not stand for itself, so what is left of one
does. -/
theorem settled_inlineVariable (m : Mark) (v : Variable) :
    session.Settled scope (session.inlineVariable m v) := by
  obtain ⟨_, _, hvalue⟩ | ⟨_, _, hvalue⟩ | hvalue := session.inlineVariable_cases m v
  · rw [hvalue]
    exact settled_string _ _
  · rw [hvalue]
    exact settled_number _ _
  · rw [hvalue, Settled, operandValue?, hvalue]

/-- Arithmetic that is carried out with values gives a value. -/
theorem settled_of_foldArithmetic {m : Mark} {op : Arithmetic} {left right : Expr}
    {type : DataType} {e : Expr} (hleft : session.Settled scope left)
    (hright : session.Settled scope right)
    (hfold : session.foldArithmetic scope m op left right type = .ok e) :
    session.Settled scope e := by
  obtain ⟨_, _, rfl⟩ | ⟨_, _, rfl⟩ | rfl := foldArithmetic_eq_ok hfold
  · exact settled_string _ _
  · exact settled_number _ _
  · rw [Settled] at hleft hright ⊢
    rw [operandValue?, hleft, hright, Option.bind_some, Option.bind_some, hfold]
    rfl

theorem truth?_of_operandValue? {e s : Expr} (hvalue : session.operandValue? scope e = some s) :
    s.truth? = e.truth? := by
  cases e with
  | var m v =>
      cases hvalue
      obtain ⟨_, _, hs⟩ | ⟨_, _, hs⟩ | hs := session.inlineVariable_cases m v <;> rw [hs] <;> rfl
  | arithmetic m op left right type =>
      obtain ⟨left', -, hvalue⟩ := Option.bind_eq_some_iff.mp hvalue
      obtain ⟨right', -, hvalue⟩ := Option.bind_eq_some_iff.mp hvalue
      obtain ⟨_, _, rfl⟩ | ⟨_, _, rfl⟩ | rfl :=
        foldArithmetic_eq_ok (toOption_eq_some_iff.mp hvalue) <;> rfl
  | list m items =>
      obtain ⟨_, -, rfl⟩ := Option.map_eq_some_iff.mp hvalue
      rfl
  | _ =>
      cases hvalue
      rfl

/-- There is nothing to reduce in a value. -/
theorem reduce_of_settled {e : Expr} (hvalue : e.isCondition = false)
    (hsettled : session.Settled scope e) : session.reduce again scope e = .ok e := by
  cases e with
  | var m v => exact congrArg Except.ok (Option.some.inj hsettled)
  | arithmetic m op left right type =>
      obtain ⟨left', -, hsettled⟩ := Option.bind_eq_some_iff.mp hsettled
      obtain ⟨right', -, hsettled⟩ := Option.bind_eq_some_iff.mp hsettled
      have hfold := toOption_eq_some_iff.mp hsettled
      obtain ⟨_, _, heq⟩ | ⟨_, _, heq⟩ | heq := foldArithmetic_eq_ok hfold
      · cases heq
      · cases heq
      · cases heq
        exact hfold
  | condition m op left right => cases hvalue
  | _ => rfl

theorem operandValues?_eq_self_iff {items : List Expr} :
    session.operandValues? scope items = some items ↔
      ∀ item ∈ items, session.Settled scope item := by
  induction items with
  | nil => simp [operandValues?]
  | cons item items ih =>
      rw [List.forall_mem_cons, ← ih, operandValues?, Option.bind_eq_some_iff]
      constructor
      · rintro ⟨value, hvalue, hvalues⟩
        obtain ⟨values, hvalues, heq⟩ := Option.map_eq_some_iff.mp hvalues
        cases heq
        exact ⟨hvalue, hvalues⟩
      · rintro ⟨hvalue, hvalues⟩
        exact ⟨item, hvalue, by rw [hvalues]; rfl⟩

theorem settled_list_iff {m : Mark} {items : List Expr} :
    session.Settled scope (.list m items) ↔ ∀ item ∈ items, session.Settled scope item := by
  rw [← operandValues?_eq_self_iff, Settled, operandValue?, Option.map_eq_some_iff]
  constructor
  · rintro ⟨values, hvalues, heq⟩
    cases heq
    exact hvalues
  · intro hvalues
    exact ⟨items, hvalues, rfl⟩

/-- Items that are simplified in turn are replaced by their values, provided
each is. -/
theorem operandValues?_of_simplifyAll {es ss : List Expr}
    (ih : ∀ e ∈ es, ∀ s, Expr.simplifyWith (session.reduce again) scope e = .ok s →
      session.operandValue? scope e = some s ∧ s.isConst = true ∧ session.Settled scope s)
    (hsimplify : Expr.simplifyAll (session.reduce again) scope es = .ok ss) :
    session.operandValues? scope es = some ss ∧ Expr.allConst ss = true ∧
      ∀ s ∈ ss, session.Settled scope s := by
  induction es generalizing ss with
  | nil =>
      cases hsimplify
      exact ⟨rfl, rfl, by simp⟩
  | cons e es ihes =>
      obtain ⟨s, hs, hsimplify⟩ := bind_eq_ok_iff.mp hsimplify
      obtain ⟨others, hothers, hsimplify⟩ := bind_eq_ok_iff.mp hsimplify
      cases hsimplify
      obtain ⟨hvalue, hconst, hsettled⟩ := ih e (by simp) s hs
      obtain ⟨hvalues, hconsts, hsettleds⟩ := ihes (fun e he => ih e (by simp [he])) hothers
      refine ⟨?_, ?_, ?_⟩
      · rw [operandValues?, hvalue, hvalues]
        rfl
      · rw [Expr.allConst, hconst, hconsts]
        rfl
      · simpa using ⟨hsettled, hsettleds⟩

/-- A constant is simplified to the value that it stands for. -/
theorem operandValue?_of_simplifyWith_const (e : Expr) (s : Expr) (hconst : e.isConst = true)
    (hsimplify : Expr.simplifyWith (session.reduce again) scope e = .ok s) :
    session.operandValue? scope e = some s ∧ s.isConst = true ∧ session.Settled scope s := by
  induction e generalizing s with
  | string m value | number m value | boolean m value | truth m value =>
      cases hsimplify
      exact ⟨rfl, rfl, rfl⟩
  | var m v =>
      cases hsimplify
      refine ⟨rfl, ?_, settled_inlineVariable m v⟩
      obtain ⟨_, _, hs⟩ | ⟨_, _, hs⟩ | hs := session.inlineVariable_cases m v <;> rw [hs] <;> rfl
  | arithmetic m op left right type ihleft ihright =>
      obtain ⟨hconstLeft, hconstRight⟩ := Bool.and_eq_true_iff.mp hconst
      obtain ⟨left', hleft, hsimplify⟩ := bind_eq_ok_iff.mp hsimplify
      obtain ⟨right', hright, hreduce⟩ := bind_eq_ok_iff.mp hsimplify
      obtain ⟨hvalueLeft, hconstLeft', hsettledLeft⟩ := ihleft left' hconstLeft hleft
      obtain ⟨hvalueRight, hconstRight', hsettledRight⟩ := ihright right' hconstRight hright
      have hfold : session.foldArithmetic scope m op left' right' type = .ok s := hreduce
      refine ⟨?_, ?_, settled_of_foldArithmetic hsettledLeft hsettledRight hfold⟩
      · rw [operandValue?, hvalueLeft, hvalueRight, Option.bind_some, Option.bind_some, hfold]
        rfl
      · obtain ⟨_, _, rfl⟩ | ⟨_, _, rfl⟩ | rfl := foldArithmetic_eq_ok hfold
        · rfl
        · rfl
        · rw [Expr.isConst, hconstLeft', hconstRight']
          rfl
  | list m items ih =>
      obtain ⟨items', hitems, hreduce⟩ := bind_eq_ok_iff.mp hsimplify
      cases hreduce
      have hconsts : ∀ e ∈ items, e.isConst = true := Expr.allConst_iff.mp hconst
      obtain ⟨hvalues, hconsts', hsettled⟩ := operandValues?_of_simplifyAll
        (fun e he s => ih e he s (hconsts e he)) hitems
      refine ⟨?_, hconsts', settled_list_iff.mpr hsettled⟩
      rw [operandValue?, hvalues]
      rfl
  | _ => cases hconst

/-- Simplification replaces the right side of a comparison by its value. -/
theorem operandValue?_of_simplifyWith {e s : Expr} (hoperand : e.isOperand = true)
    (hsimplify : Expr.simplifyWith (session.reduce again) scope e = .ok s) :
    session.operandValue? scope e = some s ∧ s.isOperand = true ∧ session.Settled scope s := by
  cases e with
  | field m f =>
      cases hsimplify
      exact ⟨rfl, rfl, rfl⟩
  | _ =>
      obtain ⟨hvalue, hconst, hsettled⟩ :=
        operandValue?_of_simplifyWith_const _ s hoperand hsimplify
      exact ⟨hvalue, Expr.isOperand_of_isConst hconst, hsettled⟩

mutual

/-- A scope matters to a value by the type of its field only. -/
theorem operandValue?_congr {scope' : Scope} (htype : scope.fieldType? = scope'.fieldType?) :
    (e : Expr) → session.operandValue? scope e = session.operandValue? scope' e
  | .arithmetic m op left right type => by
      rw [operandValue?, operandValue?, operandValue?_congr htype left,
        operandValue?_congr htype right]
      simp only [foldArithmetic, htype]
  | .list m items => by
      rw [operandValue?, operandValue?, operandValues?_congr htype items]
  | .string .. | .number .. | .boolean .. | .truth .. | .var .. | .field .. | .condition ..
  | .junction .. | .not .. | .ever .. => rfl
termination_by structural e => e

theorem operandValues?_congr {scope' : Scope} (htype : scope.fieldType? = scope'.fieldType?) :
    (es : List Expr) → session.operandValues? scope es = session.operandValues? scope' es
  | [] => rfl
  | e :: es => by
      rw [operandValues?, operandValues?, operandValue?_congr htype e,
        operandValues?_congr htype es]
termination_by structural es => es

end

end Session

end TrackerQuery

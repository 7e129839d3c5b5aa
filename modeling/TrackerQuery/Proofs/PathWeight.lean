import TrackerQuery.Proofs.PrintedFilter

/-!
# Weights along the paths of a filter

A path of a filter that has been read runs through the operators and parentheses in front
of a condition, the operators behind its field, and the chain of arithmetic on its right.
Each of these is limited by itself, so together they limit what a path can weigh.
-/

namespace TrackerQuery

namespace Expr

theorem children_withMark (e : Expr) (m : Mark) : (e.withMark m).children = e.children := by
  cases e <;> rfl

variable {weight : Expr → Nat}

theorem heaviestPath_eq_add (e : Expr) :
    e.heaviestPath weight = weight e + heaviestOf weight e.children := by
  cases e <;> simp [heaviestPath, heaviestOf, children]

theorem heaviestOf_le {es : List Expr} {bound : Nat}
    (hes : ∀ e ∈ es, e.heaviestPath weight ≤ bound) : heaviestOf weight es ≤ bound := by
  induction es with
  | nil => exact Nat.zero_le _
  | cons e es ih =>
      obtain ⟨he, hes⟩ := List.forall_mem_cons.mp hes
      exact Nat.max_le.mpr ⟨he, ih hes⟩

/-- Operators weigh one and other parts at most `plain`.  Parentheses let two connectives
stand below a part, and cost no more than an operator of two. -/
structure Weighs (weight : Expr → Nat) (plain : Nat) : Prop where
  leading : ∀ e : Expr, e.parens = false → e.isLeading = true → weight e ≤ 1
  other : ∀ e : Expr, e.parens = false → e.isLeading = false → weight e ≤ plain
  parens : ∀ (e : Expr) (m : Mark), weight (e.withMark m) + 2 * plain ≤ weight e + 2

end Expr

namespace Grammar

variable {weight : Expr → Nat} {plain : Nat} {named : Token → Prop} {ts : List Token} {e : Expr}

/-! ## Right sides -/

theorem Value.heaviestPath_le (hweight : Expr.Weighs weight plain) (h : Value ts e) :
    e.heaviestPath weight ≤ plain := by
  cases h <;> exact hweight.other _ rfl rfl

theorem Operation.heaviestPath_le (hweight : Expr.Weighs weight plain) {op : Arithmetic}
    (h : Operation ts op e) : e.heaviestPath weight ≤ plain := by
  cases h with
  | spaced hop hspelled hright => exact hright.heaviestPath_le hweight
  | signed hop hkind hvalue => exact hweight.other _ rfl rfl

theorem Expression.heaviestPath_le (hweight : Expr.Weighs weight plain) {n : Nat}
    (h : Expression n ts e) : e.heaviestPath weight ≤ (n + 1) * plain := by
  induction h with
  | @value n ts e hvalue =>
      have hvalue := hvalue.heaviestPath_le hweight
      exact Nat.le_trans hvalue (Nat.le_mul_of_pos_left _ n.succ_pos)
  | @operation n ts left us op right hleft hoperation ih =>
      have hright := hoperation.heaviestPath_le hweight
      have hsum := hweight.other (Expr.combine op left right) rfl rfl
      have hone : plain ≤ (n + 1) * plain := Nat.le_mul_of_pos_left _ n.succ_pos
      rw [Expr.combine] at hsum ⊢
      rw [Expr.heaviestPath, Nat.succ_mul]
      omega

theorem ValueList.heaviestPath_le (hweight : Expr.Weighs weight plain) (h : ValueList ts e) :
    e.heaviestPath weight ≤ (maxNesting + 2) * plain := by
  obtain @⟨opening, ts, items, closing, hopening, hitems, hclosing⟩ := h
  have hlist := hweight.other (.list { span := opening.span.cover closing.span } items) rfl rfl
  have hall : Expr.heaviestOf weight items ≤ (maxNesting + 1) * plain := by
    refine Expr.heaviestOf_le fun item hitem => ?_
    obtain ⟨us, -, hexpression⟩ := hitems.forall_mem item hitem
    exact hexpression.heaviestPath_le hweight
  rw [Expr.heaviestPath, Nat.succ_mul]
  omega

theorem RightSide.heaviestPath_le (hweight : Expr.Weighs weight plain) {op : Comparison}
    (h : RightSide named op ts e) : e.heaviestPath weight ≤ (maxNesting + 2) * plain := by
  have hone : plain ≤ (maxNesting + 2) * plain := Nat.le_mul_of_pos_left _ (Nat.succ_pos _)
  cases h with
  | group hvalue | path hvalue => exact Nat.le_trans (hvalue.heaviestPath_le hweight) hone
  | list hlist => exact hlist.heaviestPath_le hweight
  | field hop hfield => exact Nat.le_trans (hweight.other _ rfl rfl) hone
  | expression hop hexpression =>
      refine Nat.le_trans (hexpression.heaviestPath_le hweight) (Nat.mul_le_mul_right _ ?_)
      exact Nat.le_succ _

/-! ## Operators and parentheses -/

theorem heaviestPath_apply_le (hweight : Expr.Weighs weight plain) (op : Expr.Leading) (e : Expr)
    {m : Mark} (hm : m.parens = false) :
    ((op.apply e).withMark m).heaviestPath weight ≤ 2 + e.heaviestPath weight := by
  cases op with
  | not =>
      have hnot := hweight.leading (.not m e) hm rfl
      show (Expr.not m e).heaviestPath weight ≤ _
      rw [Expr.heaviestPath]
      omega
  | ever =>
      have hever := hweight.leading (.ever m e) hm rfl
      show (Expr.ever m e).heaviestPath weight ≤ _
      rw [Expr.heaviestPath]
      omega
  | never =>
      have hnot := hweight.leading (.not m (Expr.once e)) hm rfl
      have hever := hweight.leading (Expr.once e) rfl rfl
      show (Expr.not m (Expr.once e)).heaviestPath weight ≤ _
      rw [Expr.once] at hnot hever ⊢
      rw [Expr.heaviestPath, Expr.heaviestPath]
      omega

theorem parens_apply (op : Expr.Leading) (e : Expr) : (op.apply e).parens = false := by
  cases op <;> rfl

theorem withSpan_apply (op : Expr.Leading) (e : Expr) (span : Span) :
    (op.apply e).withSpan span = (op.apply e).withMark { span } := by
  cases op <;> rfl

theorem heaviestPath_foldr_le (hweight : Expr.Weighs weight plain) (ops : List Expr.Leading)
    (e : Expr) :
    (ops.foldr (fun leading e => leading.apply e) e).heaviestPath weight ≤
      2 * ops.length + e.heaviestPath weight := by
  induction ops with
  | nil => simp
  | cons op ops ih =>
      rw [List.foldr_cons, List.length_cons]
      generalize ops.foldr (fun leading e => leading.apply e) e = inner at ih ⊢
      have hop := heaviestPath_apply_le hweight op inner (parens_apply op inner)
      rw [Expr.withMark_mark] at hop
      omega

theorem Condition.heaviestPath_le (hweight : Expr.Weighs weight plain)
    (h : Condition named ts e) :
    e.heaviestPath weight ≤ 2 * maxNesting + (maxNesting + 3) * plain := by
  obtain @⟨ts, left, us, ops, vs, op, ws, right, hleft, hleading, hcount, hop, hright⟩ := h
  have hfold := heaviestPath_foldr_le hweight ops (Expr.compare op left right)
  have hcondition := hweight.other (Expr.compare op left right) rfl rfl
  have hright := hright.heaviestPath_le hweight
  have hcompare : (Expr.compare op left right).heaviestPath weight =
      weight (Expr.compare op left right) + right.heaviestPath weight := by
    rw [Expr.compare, Expr.heaviestPath]
  rw [Nat.add_mul] at hright ⊢
  omega

theorem heaviestPath_joined_le (hweight : Expr.Weighs weight plain) {connective : Connective}
    {es : List Expr} {bound : Nat} (hes : ∀ e ∈ es, e.heaviestPath weight ≤ bound) :
    (Expr.joined connective es).heaviestPath weight ≤ plain + bound := by
  unfold Expr.joined
  split
  · rename_i e
    exact Nat.le_trans (hes e List.mem_cons_self) (Nat.le_add_left ..)
  · have hall := Expr.heaviestOf_le hes
    have hjoin := hweight.other (Expr.join connective es) rfl rfl
    rw [Expr.join] at hjoin ⊢
    rw [Expr.heaviestPath]
    omega

theorem Disjunction.heaviestPath_le (hweight : Expr.Weighs weight plain)
    {operand : List Token → Expr → Prop} {bound : Nat}
    (hoperand : ∀ us e, operand us e → e.heaviestPath weight ≤ bound)
    (h : Disjunction operand ts e) : e.heaviestPath weight ≤ 2 * plain + bound := by
  obtain ⟨parts, hparts, rfl⟩ := h
  have hall : ∀ part ∈ parts, part.heaviestPath weight ≤ plain + bound := by
    intro part hpart
    obtain ⟨us, -, operands, hoperands, rfl⟩ := hparts.forall_mem part hpart
    refine heaviestPath_joined_le hweight fun e he => ?_
    obtain ⟨vs, -, he⟩ := hoperands.forall_mem e he
    exact hoperand vs e he
  have hjoined : (Expr.joined .or parts).heaviestPath weight ≤ plain + (plain + bound) :=
    heaviestPath_joined_le hweight hall
  omega

/-- A level adds at most two to what a path weighs. -/
theorem Operand.heaviestPath_le (hweight : Expr.Weighs weight plain) {depth : Nat}
    (h : Operand named depth ts e) :
    e.heaviestPath weight ≤ 2 * depth + (2 * maxNesting + (maxNesting + 3) * plain) := by
  induction depth generalizing ts e with
  | zero => exact Nat.le_add_left_of_le (Condition.heaviestPath_le hweight h)
  | succ depth ih =>
      cases h with
      | condition hcondition =>
          exact Nat.le_add_left_of_le (hcondition.heaviestPath_le hweight)
      | @leading t op ts e hword hinner =>
          have hinner := ih hinner
          have hop := heaviestPath_apply_le hweight op e (m := { span := t.span.cover e.span }) rfl
          rw [withSpan_apply]
          omega
      | @exclamation t ts e hmark hinner =>
          have hinner := ih hinner
          have hnot := heaviestPath_apply_le hweight .not e
            (m := { span := t.span.cover e.span }) rfl
          exact Nat.le_trans hnot (by omega)
      | @parens opening ts e closing hopening hinner hclosing =>
          have hinner := hinner.heaviestPath_le hweight fun us e he => ih he
          have hmark := hweight.parens e ⟨opening.span.cover closing.span, true⟩
          rw [Expr.heaviestPath_eq_add] at hinner ⊢
          rw [Expr.children_withMark]
          omega

theorem Filter.heaviestPath_le (hweight : Expr.Weighs weight plain) (h : Filter named ts e) :
    e.heaviestPath weight ≤ 4 * maxNesting + (maxNesting + 5) * plain := by
  have hfilter := Disjunction.heaviestPath_le hweight
    (fun us e he => Operand.heaviestPath_le hweight he) h
  rw [Nat.add_mul] at hfilter ⊢
  omega

end Grammar

end TrackerQuery

import TrackerQuery.Proofs.NestingCounter
import TrackerQuery.Proofs.SimplifiedConditions
import TrackerQuery.Proofs.Stages
import TrackerQuery.Proofs.TreeHeight

/-!
# The height of a simplified filter

A value is no higher than the expression it stands for, and the choice between the values
of a list no higher than the list.  A node is added only where a condition gives way to
something else than a condition, so once on every path at most.
-/

namespace TrackerQuery

namespace Expr

theorem height_le_height {e s : Expr}
    (h : ∀ part ∈ s.children, ∃ child ∈ e.children, part.height ≤ child.height) :
    s.height ≤ e.height := by
  obtain ⟨n, hn⟩ := Nat.exists_eq_succ_of_ne_zero (Nat.ne_of_gt e.height_pos)
  rw [hn, Nat.succ_eq_add_one, height_le_iff]
  intro part hpart
  obtain ⟨child, hchild, hle⟩ := h part hpart
  have hlt := height_lt hchild
  omega

theorem height_of_leaf {e : Expr} (hleaf : e.children = []) : e.height = 1 := by
  rw [height_eq, hleaf]
  rfl

theorem height_le_of_leaf {s : Expr} (hleaf : s.children = []) (e : Expr) :
    s.height ≤ e.height := by
  rw [height_of_leaf hleaf]
  exact e.height_pos

/-- At most one node higher than the bound, and as a condition no higher. -/
structure Within (bound : Nat) (e : Expr) : Prop where
  height : e.height ≤ bound + 1
  condition : e.isCondition = true → e.height ≤ bound

theorem Within.of_le {bound : Nat} {e : Expr} (h : e.height ≤ bound) : e.Within bound :=
  ⟨Nat.le_succ_of_le h, fun _ => h⟩

theorem Within.mono {bound bound' : Nat} {e : Expr} (h : e.Within bound) (hle : bound ≤ bound') :
    e.Within bound' :=
  ⟨Nat.le_trans h.height (Nat.succ_le_succ hle), fun he => Nat.le_trans (h.condition he) hle⟩

theorem within_condition {m : Mark} {op : Comparison} {left : FieldRef} {right : Expr}
    {bound : Nat} (hright : right.height < bound) :
    (Expr.condition m op left right).Within bound := by
  obtain ⟨n, rfl⟩ := Nat.exists_eq_succ_of_ne_zero (Nat.ne_zero_of_lt hright)
  exact .of_le (height_le_iff.mpr (List.forall_mem_singleton.mpr (Nat.le_of_lt_succ hright)))

theorem within_of_children {e : Expr} {bound : Nat} (hcondition : e.isCondition = false)
    (hchildren : ∀ child ∈ e.children, child.height ≤ bound) : e.Within bound :=
  ⟨height_le_iff.mpr hchildren, fun h => absurd h (by simp [hcondition])⟩

section Parts

variable {n bound : Nat} {e child : Expr} (hn : n < bound)
include hn

theorem Within.of_child (h : e.Within n) (hchild : child ∈ e.children) : child.Within bound := by
  have hlt := height_lt hchild
  have hle := h.height
  exact .of_le (by omega)

theorem Within.over (h : child.Within n) (hcondition : e.isCondition = false)
    (hchildren : e.children = [child]) : e.Within bound := by
  refine within_of_children hcondition ?_
  rw [hchildren, List.forall_mem_singleton]
  exact Nat.le_trans h.height hn

end Parts

def AnyCondition : Comparison → FieldRef → Expr → Prop :=
  fun _ _ _ => True

end Expr

namespace Session

open TrackerQuery.Expr (AnyCondition)

variable {session : Session} {again : Reduction} {scope : Scope}

/-! ## Values -/

theorem exists_of_mem_operandValues? {items values : List Expr}
    (hvalues : session.operandValues? scope items = some values) :
    ∀ value ∈ values, ∃ item ∈ items, session.operandValue? scope item = some value := by
  induction items generalizing values with
  | nil =>
      cases hvalues
      simp
  | cons item items ih =>
      obtain ⟨first, hfirst, hvalues⟩ := Option.bind_eq_some_iff.mp hvalues
      obtain ⟨others, hothers, rfl⟩ := Option.map_eq_some_iff.mp hvalues
      refine List.forall_mem_cons.mpr ⟨⟨item, List.mem_cons_self, hfirst⟩, fun value hvalue => ?_⟩
      obtain ⟨found, hfound, hsome⟩ := ih hothers value hvalue
      exact ⟨found, List.mem_cons_of_mem item hfound, hsome⟩

/-- A value is no higher than what stands for it. -/
theorem height_le_of_operandValue? {e s : Expr} (hvalue : session.operandValue? scope e = some s) :
    s.height ≤ e.height := by
  induction e generalizing s with
  | var m v =>
      cases hvalue
      obtain ⟨_, _, hs⟩ | ⟨_, _, hs⟩ | hs := session.inlineVariable_cases m v <;> rw [hs] <;>
        exact Expr.height_le_of_leaf rfl _
  | arithmetic m op left right type ihleft ihright =>
      obtain ⟨left', hleft, hvalue⟩ := Option.bind_eq_some_iff.mp hvalue
      obtain ⟨right', hright, hvalue⟩ := Option.bind_eq_some_iff.mp hvalue
      obtain ⟨_, _, rfl⟩ | ⟨_, _, rfl⟩ | rfl :=
        foldArithmetic_eq_ok (toOption_eq_some_iff.mp hvalue)
      · exact Expr.height_le_of_leaf rfl _
      · exact Expr.height_le_of_leaf rfl _
      · refine Expr.height_le_height (List.forall_mem_cons.mpr
          ⟨⟨left, List.mem_cons_self, ihleft hleft⟩, List.forall_mem_singleton.mpr ?_⟩)
        exact ⟨right, List.mem_cons_of_mem left List.mem_cons_self, ihright hright⟩
  | list m items ih =>
      obtain ⟨values, hvalues, rfl⟩ := Option.map_eq_some_iff.mp hvalue
      refine Expr.height_le_height fun value hmem => ?_
      obtain ⟨item, hitem, hsome⟩ := exists_of_mem_operandValues? hvalues value hmem
      exact ⟨item, hitem, ih item hitem hsome⟩
  | _ =>
      cases hvalue
      exact Nat.le_refl _

/-! ## Conditions -/

theorem within_of_dayCondition {m : Mark} {op : Comparison} {left : FieldRef}
    {first following e : Expr} {bound : Nat} (hfirst : first.height < bound)
    (hfollowing : following.height < bound)
    (hday : dayCondition? m left first following op = some e) : e.Within bound := by
  have hboth : ∀ connective low high, Expr.Within bound (.junction m connective
      [.compare low left.reference first, .compare high left.reference following]) := by
    intro connective low high
    refine Expr.within_of_children rfl (List.forall_mem_cons.mpr ⟨?_, ?_⟩)
    · exact (Expr.within_condition hfirst).condition rfl
    · exact List.forall_mem_singleton.mpr ((Expr.within_condition hfollowing).condition rfl)
  cases op with
  | equals | notEquals =>
      cases hday
      exact hboth _ _ _
  | less | greaterOrEquals =>
      cases hday
      exact Expr.within_condition hfirst
  | greater | lessOrEquals =>
      cases hday
      exact Expr.within_condition hfollowing
  | _ => cases hday

/-- A condition is reduced to something that is at most one node higher. -/
theorem within_of_reduceCondition {m : Mark} {op : Comparison} {left : FieldRef} {right s : Expr}
    {bound : Nat} (hop : op ≠ .oneOf) (hleft : left.Resolved session.schema scope)
    (hbound : right.height < bound)
    (hreduce : session.reduceCondition again scope m op left right = .ok s) : s.Within bound := by
  have hleaf : ∀ e : Expr, e.children = [] → e.height < bound := fun e he =>
    Nat.lt_of_le_of_lt (Expr.height_le_of_leaf he right) hbound
  cases reduced_of_reduceCondition hreduce with
  | choice listMark items hlist => exact absurd hlist hop
  | emptySearch hsearch htext he | present id hnot hid hpresent htext he =>
      rw [he]
      exact .of_le (Nat.le_of_lt (hleaf _ rfl))
  | project project _ hid htext hproject he =>
      obtain ⟨-, area, -, rfl⟩ := projectCondition_eq_ok he
      split
      · refine Expr.within_of_children rfl (List.forall_mem_singleton.mpr ?_)
        exact (Expr.within_condition (hleaf _ rfl)).condition rfl
      · exact Expr.within_condition (hleaf _ rfl)
  | day text _ hday htype htext hnonempty he =>
      obtain ⟨t, next, -, -, -, he⟩ := splitDay_eq_ok_dayCondition hleft he
      exact within_of_dayCondition (hleaf _ rfl) (hleaf _ rfl) he
  | same _ he =>
      rw [he]
      exact Expr.within_condition hbound

/-! ## Clauses -/

theorem lasting_anyCondition : session.Lasting scope AnyCondition where
  value _ _ := trivial
  item _ _ := trivial
  project _ _ := trivial
  day _ _ := ⟨trivial, trivial⟩

theorem within_of_reduce {e s : Expr} {bound : Nat} (he : session.Tidy scope False AnyCondition e)
    (hbound : e.Within bound) (hs : session.reduce again scope e = .ok s) : s.Within bound := by
  cases e with
  | condition m op left right =>
      obtain ⟨hop, hleft, -⟩ := he
      have hright : right.height < (Expr.condition m op left right).height :=
        Expr.height_lt List.mem_cons_self
      exact within_of_reduceCondition hop hleft
        (Nat.lt_of_lt_of_le hright (hbound.condition rfl)) hs
  | truth | junction | not | ever =>
      cases hs
      exact hbound
  | _ => cases he

/-- What a leaf is simplified to is tidy and at most one node higher. -/
structure Contained (session : Session) (again : Reduction) (scope : Scope) (e : Expr) : Prop where
  tidy : session.Yields again scope (session.Tidy scope False AnyCondition) e
  within : e.isLeaf = true → ∀ s,
    Expr.simplifyWith (session.reduce again) scope e = .ok s → s.Within e.height

theorem everywhere_tidy_of_contained {e s : Expr}
    (he : e.Everywhere (session.Contained again scope))
    (hs : Expr.simplifyWith (session.reduce again) scope e = .ok s) :
    s.Everywhere (session.Tidy scope False AnyCondition) :=
  everywhere_of_yields hereditary_tidy (fun _ _ => everywhere_tidy_of_reduce lasting_anyCondition)
    (he.imp fun _ h => h.tidy)
    (everywhere_admits (fun htruth _ _ => Expr.truth?_eq_none htruth) e) hs

/-- Operands that are left are no higher; a single one is reduced once more. -/
theorem within_of_kept {m : Mark} {connective : Connective} {kept : List Expr} {s : Expr}
    {bound : Nat} (hpos : 0 < bound)
    (hkept : ∀ k ∈ kept, session.Tidy scope False AnyCondition k ∧ ∃ n < bound, k.Within n)
    (hs : session.reduce again scope (Expr.ofOperands m connective kept) = .ok s) :
    s.Within bound := by
  cases kept with
  | nil =>
      cases hs
      exact .of_le (by rw [Expr.height_of_leaf rfl]; exact hpos)
  | cons first others =>
      cases others with
      | nil =>
          obtain ⟨htidy, n, hn, hwithin⟩ := hkept first List.mem_cons_self
          exact (within_of_reduce htidy hwithin hs).mono (Nat.le_of_lt hn)
      | cons second others =>
          cases hs
          refine Expr.within_of_children rfl fun k hk => ?_
          obtain ⟨-, n, hn, hwithin⟩ := hkept k hk
          exact Nat.le_trans hwithin.height hn

/-- An expression grows by one node at most if its leaves do. -/
theorem within_of_contained {e s : Expr} (he : e.Everywhere (session.Contained again scope))
    (hs : Expr.simplifyWith (session.reduce again) scope e = .ok s) : s.Within e.height := by
  induction e generalizing s with
  | junction m connective operands ih =>
      obtain ⟨kept, hfold, hs⟩ | ⟨-, hs⟩ := Expr.simplifyWith_junction hs
      · refine within_of_kept (Expr.height_pos _) (fun k hk => ?_) hs
        obtain ⟨-, operand, hoperand, hk⟩ := (Expr.foldOperands_eq_some hfold).1 k hk
        have hcontained := Expr.allEverywhere_iff.mp he.2 operand hoperand
        exact ⟨(everywhere_tidy_of_contained hcontained hk).self, operand.height,
          Expr.height_lt hoperand, ih operand hoperand hcontained hk⟩
      · cases hs
        exact .of_le (Expr.height_le_of_leaf rfl _)
  | not m operand ih =>
      have hlt : operand.height < (Expr.not m operand).height :=
        Expr.height_lt List.mem_cons_self
      obtain ⟨s', hs', ⟨m', rfl⟩ | ⟨m', value, rfl, hs⟩ | hs⟩ := Expr.simplifyWith_not hs
      · exact (ih he.2 hs').of_child hlt List.mem_cons_self
      · cases hs
        exact .of_le (Expr.height_le_of_leaf rfl _)
      · cases hs
        exact (ih he.2 hs').over hlt rfl rfl
  | ever m operand ih =>
      have hlt : operand.height < (Expr.ever m operand).height :=
        Expr.height_lt List.mem_cons_self
      obtain ⟨s', hs', ⟨m', rfl⟩ | ⟨m', value, rfl, hs⟩ | ⟨-, hs⟩⟩ := Expr.simplifyWith_ever hs
      · exact (ih he.2 hs').of_child hlt List.mem_cons_self
      · cases hs
        exact .of_le (Expr.height_le_of_leaf rfl _)
      · cases hs
        exact (ih he.2 hs').over hlt rfl rfl
  | _ => exact he.within rfl s hs

/-- The values of a list are in place already, so their comparisons are only reduced. -/
theorem within_of_alternatives {m : Mark} {left : FieldRef} {items : List Expr} {s : Expr}
    (hleft : left.Resolved session.schema scope)
    (hitems : ∀ item ∈ items, item.isConst = true ∧ session.Settled (scope.withField left) item)
    (hs : Expr.simplifyWith (session.reduce again) scope (alternatives m left items) = .ok s) :
    s.Within (alternatives m left items).height := by
  refine within_of_contained ⟨⟨nofun, nofun⟩, ?_⟩ hs
  refine Expr.allEverywhere_iff.mpr fun operand hoperand => ?_
  obtain ⟨item, hmem, rfl⟩ := List.mem_map.mp hoperand
  obtain ⟨hconst, hsettled⟩ := hitems item hmem
  have hreduced : ∀ s, Expr.simplifyWith (session.reduce again) scope
      (.compare .equals left.reference item) = .ok s →
        ∃ mark, session.reduceCondition again scope mark .equals left.reference item = .ok s := by
    intro s hs
    obtain ⟨value, hvalue, hs⟩ := Expr.simplifyWith_condition hs
    rw [simplifyWith_of_settled_const item hconst (settled_reference_iff.mpr hsettled)] at hvalue
    cases hvalue
    exact ⟨_, hs⟩
  refine ⟨fun _ s hs => ?_, fun _ s hs => ?_⟩
  · obtain ⟨mark, hs⟩ := hreduced s hs
    exact everywhere_tidy_of_reduceCondition lasting_anyCondition (by decide)
      (resolved_reference hleft) trivial hs
  · obtain ⟨mark, hs⟩ := hreduced s hs
    exact within_of_reduceCondition (by decide) (resolved_reference hleft)
      (Expr.height_lt List.mem_cons_self) hs

/-- The comparisons with the values of a list are no higher than the list. -/
theorem height_alternatives_le {m m' listMark : Mark} {op : Comparison} {left : FieldRef}
    {items : List Expr} :
    (alternatives m left items).height ≤
      (Expr.condition m' op left (.list listMark items)).height := by
  have hlist : (Expr.list listMark items).height <
      (Expr.condition m' op left (.list listMark items)).height :=
    Expr.height_lt List.mem_cons_self
  refine Nat.le_trans (Expr.height_le_iff.mpr fun operand hoperand => ?_) hlist
  obtain ⟨item, hitem, rfl⟩ := List.mem_map.mp hoperand
  exact (Expr.within_condition (Expr.height_lt hitem)).condition rfl

/-- A condition grows by one node at most. -/
theorem contained_condition {m : Mark} {op : Comparison} {left : FieldRef} {right : Expr}
    (hresolved : (Expr.condition m op left right).Resolved session.schema scope) :
    session.Contained (Expr.simplifyWith (session.reduce again)) scope
      (.condition m op left right) := by
  refine ⟨yields_tidy_condition lasting_anyCondition hresolved trivial, fun _ s hs => ?_⟩
  obtain ⟨value, hvalue, hs⟩ := Expr.simplifyWith_condition hs
  obtain ⟨hleft, hright, hcheck⟩ := hresolved.1
  obtain ⟨hsome, hoperand, hsettled⟩ :=
    operandValue?_of_simplifyWith (isOperand_of_checkRight hright hcheck) hvalue
  have hheight : (Expr.condition m op left value).height ≤
      (Expr.condition m op left right).height :=
    Expr.height_le_height (List.forall_mem_singleton.mpr
      ⟨right, List.mem_cons_self, height_le_of_operandValue? hsome⟩)
  by_cases hop : op = .oneOf
  · subst hop
    obtain ⟨listMark, items, rfl, hagain⟩ := reduceCondition_oneOf hs
    have hconsts := Expr.allConst_iff.mp hoperand
    have hvalues := settled_list_iff.mp hsettled
    refine (within_of_alternatives hleft (fun item hitem => ?_) hagain).mono
      (Nat.le_trans height_alternatives_le hheight)
    exact ⟨hconsts item hitem, hvalues item hitem⟩
  · exact within_of_reduceCondition hop hleft
      (Nat.lt_of_lt_of_le (Expr.height_lt List.mem_cons_self) hheight) hs

/-- A clause of conditions gains one node in height at most. -/
theorem height_le_of_simplify {e s : Expr} (hresolved : e.Resolved session.schema scope)
    (he : e.Everywhere (Expr.MadeOf False AnyCondition)) (hs : session.simplify scope e = .ok s) :
    s.height ≤ e.height + 1 := by
  have hparts : e.Everywhere fun e =>
      e.Resolved session.schema scope ∧ Expr.MadeOf False AnyCondition e :=
    (Expr.everywhere_of_resolved (fun _ h _ => h) e hresolved hresolved).and he
  refine (within_of_contained (hparts.imp ?_) hs).height
  rintro e ⟨hresolved, hmade⟩
  cases e with
  | condition m op left right => exact contained_condition hresolved
  | truth m value =>
      refine ⟨fun _ s hs => ?_, fun _ s hs => ?_⟩
      · cases hs
        trivial
      · cases hs
        exact .of_le (Nat.le_refl _)
  | junction | not | ever => exact ⟨nofun, nofun⟩
  | _ => cases hmade

end Session

/-! ## Filters -/

namespace Grammar

open TrackerQuery.Expr (AnyCondition)

variable {named : Token → Prop} {ts : List Token} {e : Expr}

theorem everywhere_madeOf_withMark (m : Mark) (he : e.Everywhere (Expr.MadeOf False AnyCondition)) :
    (e.withMark m).Everywhere (Expr.MadeOf False AnyCondition) := by
  cases e <;> exact he

theorem everywhere_madeOf_apply (op : Expr.Leading)
    (he : e.Everywhere (Expr.MadeOf False AnyCondition)) :
    (op.apply e).Everywhere (Expr.MadeOf False AnyCondition) := by
  cases op with
  | not | ever => exact ⟨trivial, he⟩
  | never => exact ⟨trivial, trivial, he⟩

theorem everywhere_madeOf_joined {connective : Connective} {es : List Expr}
    (hes : ∀ e ∈ es, e.Everywhere (Expr.MadeOf False AnyCondition)) :
    (Expr.joined connective es).Everywhere (Expr.MadeOf False AnyCondition) := by
  unfold Expr.joined
  split
  · exact hes _ List.mem_cons_self
  · exact ⟨trivial, Expr.allEverywhere_iff.mpr hes⟩

theorem Condition.everywhere_madeOf (h : Condition named ts e) :
    e.Everywhere (Expr.MadeOf False AnyCondition) := by
  obtain @⟨ts, left, us, ops, vs, op, ws, right, hleft, hleading, hcount, hop, hright⟩ := h
  clear hleading hcount hop
  induction ops with
  | nil => trivial
  | cons leading ops ih => exact everywhere_madeOf_apply leading ih

theorem Disjunction.everywhere_madeOf {operand : List Token → Expr → Prop}
    (hoperand : ∀ us e, operand us e → e.Everywhere (Expr.MadeOf False AnyCondition))
    (h : Disjunction operand ts e) : e.Everywhere (Expr.MadeOf False AnyCondition) := by
  obtain ⟨parts, hparts, rfl⟩ := h
  refine everywhere_madeOf_joined fun part hpart => ?_
  obtain ⟨us, -, operands, hoperands, rfl⟩ := hparts.forall_mem part hpart
  refine everywhere_madeOf_joined fun e he => ?_
  obtain ⟨vs, -, he⟩ := hoperands.forall_mem e he
  exact hoperand vs e he

theorem Operand.everywhere_madeOf {depth : Nat} (h : Operand named depth ts e) :
    e.Everywhere (Expr.MadeOf False AnyCondition) := by
  induction depth generalizing ts e with
  | zero => exact Condition.everywhere_madeOf h
  | succ depth ih =>
      cases h with
      | condition hcondition => exact hcondition.everywhere_madeOf
      | @leading t op ts e hword hinner =>
          rw [withSpan_apply]
          exact everywhere_madeOf_withMark _ (everywhere_madeOf_apply op (ih hinner))
      | exclamation hmark hinner => exact ⟨trivial, ih hinner⟩
      | parens hopening hinner hclosing =>
          exact everywhere_madeOf_withMark _ (hinner.everywhere_madeOf fun us e he => ih he)

end Grammar

namespace Session

open TrackerQuery.Expr (AnyCondition)

variable {session : Session}

theorem everywhere_madeOf_of_bind {scope : Scope} {e bound : Expr}
    (he : e.Everywhere (Expr.MadeOf False AnyCondition))
    (hbind : (e.bind session.schema scope).toExcept = .ok bound) :
    bound.Everywhere (Expr.MadeOf False AnyCondition) := by
  induction e generalizing bound with
  | condition m op left right =>
      obtain ⟨left', right', -, -, -, -, rfl⟩ := Expr.bind_condition_eq_ok_iff.mp hbind
      trivial
  | truth m value =>
      obtain ⟨hparts, -⟩ := Attempt.check_eq_ok_iff.mp hbind
      cases hparts
      trivial
  | not m operand ih | ever m operand ih =>
      obtain ⟨hparts, -⟩ := Attempt.check_eq_ok_iff.mp hbind
      obtain ⟨operand', hoperand, rfl⟩ := Attempt.map_eq_ok_iff.mp hparts
      obtain ⟨hchecked, -⟩ := Attempt.check_eq_ok_iff.mp hoperand
      exact ⟨trivial, ih he.2 hchecked⟩
  | junction m connective operands ih =>
      obtain ⟨operands', hoperands, rfl⟩ := bind_junction_eq_ok_iff.mp hbind
      have hmade : ∀ e ∈ operands, ∀ b, (e.bind session.schema scope).toExcept = .ok b →
          b.Everywhere (Expr.MadeOf False AnyCondition) :=
        fun e hmem b => ih e hmem (Expr.allEverywhere_iff.mp he.2 e hmem)
      have hall := ((List.forall₂_and_left _ _).mpr ⟨hmade, hoperands⟩).imp
        fun e b h => And.intro h.2 (h.1 b h.2.1)
      exact ⟨trivial, Expr.allEverywhere_iff.mpr (forall₂_and_right_iff.mp hall).2⟩
  | _ => cases he

/-- The filter of a query gains one node in height at most. -/
theorem height_le_of_simplifyQuery {ts : List Token} {query bound simplified : Select}
    {filter' : Expr} (hread : Select.ofTokens ts = .ok query)
    (hbind : session.bind query = .ok bound)
    (hsimplify : session.simplifyQuery bound = .ok simplified)
    (hfilter' : simplified.filter = some filter') :
    ∃ filter, query.filter = some filter ∧ filter'.height ≤ filter.height + 1 := by
  obtain ⟨resolved, hresolved, hsimplified⟩ := Select.simplifyWith_filter hsimplify hfilter'
  obtain ⟨filter, table, hfilter, htable, hbound, -⟩ :=
    Select.written_of_bind_filter hbind hresolved
  obtain ⟨used, left, span, -, -, hquery⟩ := Grammar.exists_query_of_ofTokens hread
  obtain ⟨us, -, hderived⟩ := hquery.exists_filter hfilter
  have hmade := Grammar.Disjunction.everywhere_madeOf (fun _ _ he => he.everywhere_madeOf) hderived
  have hheight := height_le_of_simplify (Expr.resolved_of_bind hbound)
    (everywhere_madeOf_of_bind hmade hbound) (htable ▸ hsimplified)
  exact ⟨filter, hfilter, by rwa [height_of_bind hbound] at hheight⟩

end Session

namespace Select

/-- Every path of a filter that is read has at most `5 * maxNesting + 5` nodes, every level
that reading opens is closed again, and simplification makes paths longer by one node at
most. -/
theorem filterPath_length_le {ts : List Token} {query : Select} (hread : ofTokens ts = .ok query) :
    (∀ filter ∈ query.filter, ∀ path, filter.Path path → path.length ≤ 5 * maxNesting + 5) ∧
    (∀ depth ≤ maxNesting, ∀ calls, maxNesting - depth < calls → Counted.Balanced depth calls) ∧
    ∀ (session : Session) bound simplified, session.bind query = .ok bound →
      session.simplifyQuery bound = .ok simplified →
        ∀ filter' ∈ simplified.filter, ∀ path', filter'.Path path' →
          ∃ filter ∈ query.filter, ∃ path, filter.Path path ∧ path'.length ≤ path.length + 1 := by
  refine ⟨fun filter hfilter path hpath => ?_, fun depth hdepth calls => Counted.balanced hdepth,
    fun session bound simplified hbind hsimplify filter' hfilter' path' hpath' => ?_⟩
  · exact Nat.le_trans hpath.length_le_height (height_le_of_ofTokens hread hfilter)
  · obtain ⟨filter, hfilter, hheight⟩ :=
      session.height_le_of_simplifyQuery hread hbind hsimplify hfilter'
    obtain ⟨path, hpath, hlength⟩ := filter.exists_path_length_eq_height
    have hle := hpath'.length_le_height
    exact ⟨filter, hfilter, path, hpath, by omega⟩

/-- A list of days, each of which takes two comparisons: here one node is gained. -/
theorem filterPath_length_le_of_days :
    ∃ ts query session bound simplified filter filter',
      tokens ("select * from WorkItems where " ++
        "not [Created Date] in ('2024-02-29', '2024-12-31')") = .ok ts ∧
      ofTokens ts = .ok query ∧
      Session.start Calendar.Zone.ofName? .dated { dayPrecision := true } [] ⟨⟨0, 0⟩⟩ = .ok session ∧
      session.bind query = .ok bound ∧ session.simplifyQuery bound = .ok simplified ∧
      query.filter = some filter ∧ simplified.filter = some filter' ∧
      filter.height = 4 ∧ filter'.height = 5 ∧
      (∀ path, filter.Path path → path.length ≤ 5 * maxNesting + 5) ∧
      Counted.Balanced 0 (maxNesting + 1) ∧
      ∀ path', filter'.Path path' → ∃ path, filter.Path path ∧ path'.length ≤ path.length + 1 := by
  have hcompiles : (do
      let ts ← (tokens ("select * from WorkItems where " ++
        "not [Created Date] in ('2024-02-29', '2024-12-31')")).toOption
      let query ← (ofTokens ts).toOption
      let session ← (Session.start Calendar.Zone.ofName? .dated { dayPrecision := true } [] ⟨⟨0, 0⟩⟩).toOption
      let bound ← (session.bind query).toOption
      let simplified ← (session.simplifyQuery bound).toOption
      let filter ← query.filter
      let filter' ← simplified.filter
      guard (filter.height = 4 ∧ filter'.height = 5)).isSome = true := by
    decide +kernel
  obtain ⟨_, hcompiles⟩ := Option.isSome_iff_exists.mp hcompiles
  obtain ⟨ts, hts, hcompiles⟩ := toOption_bind_eq_some_iff.mp hcompiles
  obtain ⟨query, hquery, hcompiles⟩ := toOption_bind_eq_some_iff.mp hcompiles
  obtain ⟨session, hsession, hcompiles⟩ := toOption_bind_eq_some_iff.mp hcompiles
  obtain ⟨bound, hbound, hcompiles⟩ := toOption_bind_eq_some_iff.mp hcompiles
  obtain ⟨simplified, hsimplified, hcompiles⟩ := toOption_bind_eq_some_iff.mp hcompiles
  obtain ⟨filter, hfilter, hcompiles⟩ := Option.bind_eq_some_iff.mp hcompiles
  obtain ⟨filter', hfilter', hcompiles⟩ := Option.bind_eq_some_iff.mp hcompiles
  obtain ⟨hheight, hheight'⟩ := guard_eq_some_iff.mp hcompiles
  obtain ⟨hread, hbalanced, hgained⟩ := filterPath_length_le hquery
  refine ⟨ts, query, session, bound, simplified, filter, filter', hts, hquery, hsession, hbound,
    hsimplified, hfilter, hfilter', hheight, hheight', hread filter hfilter,
    hbalanced 0 (Nat.zero_le _) _ (Nat.lt_succ_self _), fun path' hpath' => ?_⟩
  obtain ⟨found, hfound, hpath⟩ :=
    hgained session bound simplified hbound hsimplified filter' hfilter' path' hpath'
  cases Option.some.inj (hfilter.symm.trans hfound)
  exact hpath

end Select

end TrackerQuery

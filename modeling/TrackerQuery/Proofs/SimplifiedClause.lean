import TrackerQuery.Proofs.DaySplit
import TrackerQuery.Proofs.Leaves
import TrackerQuery.Proofs.OperandValue

/-!
# Names and types through simplification

Simplification makes new conditions out of old ones: a list becomes a choice, a
team project its area, a day a pair of comparisons.  Every field and every macro
in what it makes is still resolved, and a clause stays a clause.
-/

namespace TrackerQuery

namespace Session

variable {session : Session} {again : Reduction} {scope : Scope}

/-! ## Names -/

def KeepsNames (session : Session) (simplify : Reduction) : Prop :=
  ∀ scope e s, e.NamesResolved session.schema scope.table → simplify scope e = .ok s →
    s.NamesResolved session.schema scope.table

theorem namesResolved_literal {table : Option TableRef} {e : Expr} {text : String}
    (htext : e.literal? = some text) : e.NamesResolved session.schema table := by
  cases e <;> first | exact Expr.namesResolved_of_nil rfl rfl | cases htext

theorem namesResolved_alternatives {m : Mark} {left : FieldRef} {items : List Expr}
    (hleft : left.Resolved session.schema scope)
    (hitems : ∀ item ∈ items, item.NamesResolved session.schema scope.table) :
    (alternatives m left items).NamesResolved session.schema scope.table := by
  apply Expr.namesResolved_withMark
  apply Expr.namesResolved_junction_iff.mpr
  intro operand hoperand
  obtain ⟨item, hitem, rfl⟩ := List.mem_map.mp hoperand
  apply Expr.namesResolved_condition_iff.mpr
  exact ⟨(resolved_reference hleft).congr rfl, hitems item hitem⟩

theorem namesResolved_of_dayCondition {m : Mark} {op : Comparison} {left : FieldRef}
    {first following e : Expr} (hleft : left.Resolved session.schema scope)
    (hfirst : first.NamesResolved session.schema scope.table)
    (hfollowing : following.NamesResolved session.schema scope.table)
    (hday : dayCondition? m left first following op = some e) :
    e.NamesResolved session.schema scope.table := by
  have hcompare : ∀ {mark : Mark} {op : Comparison} {field : FieldRef} {value : Expr},
      field.Resolved session.schema scope → value.NamesResolved session.schema scope.table →
        (Expr.condition mark op field value).NamesResolved session.schema scope.table :=
    fun hfield hvalue => Expr.namesResolved_condition_iff.mpr ⟨hfield.congr rfl, hvalue⟩
  have hreference := resolved_reference hleft
  cases op with
  | equals | notEquals =>
      cases hday
      apply Expr.namesResolved_junction_iff.mpr
      simp only [List.mem_cons, List.not_mem_nil, or_false, forall_eq_or_imp, forall_eq]
      exact ⟨hcompare hreference hfirst, hcompare hreference hfollowing⟩
  | less | greaterOrEquals =>
      cases hday
      exact hcompare hleft hfirst
  | greater | lessOrEquals =>
      cases hday
      exact hcompare hleft hfollowing
  | _ => cases hday

/-- Reducing a condition keeps names resolved. -/
theorem namesResolved_of_reduceCondition (hagain : session.KeepsNames again) {m : Mark}
    {op : Comparison} {left : FieldRef} {right e : Expr}
    (hleft : left.Resolved session.schema scope)
    (hright : right.NamesResolved session.schema scope.table)
    (hreduce : session.reduceCondition again scope m op left right = .ok e) :
    e.NamesResolved session.schema scope.table := by
  cases reduced_of_reduceCondition hreduce with
  | choice listMark items hop hlist hchoice =>
      rw [hlist] at hright
      apply hagain scope _ e _ hchoice
      exact namesResolved_alternatives hleft (Expr.namesResolved_list_iff.mp hright)
  | emptySearch hop htext he =>
      rw [he]
      exact Expr.namesResolved_of_nil rfl rfl
  | project project hop hid htext hproject he =>
      exact Expr.namesResolved_of_partsResolved e scope (projectCondition_eq_ok he).1.1
  | day text hop hday htype htext hnonempty he =>
      obtain ⟨t, next, -, -, -, he⟩ := splitDay_eq_ok_dayCondition hleft he
      exact namesResolved_of_dayCondition hleft (namesResolved_literal rfl)
        (namesResolved_literal rfl) he
  | present id hop hid hpresent htext he =>
      rw [he]
      exact Expr.namesResolved_of_nil rfl rfl
  | same hop he =>
      rw [he]
      exact Expr.namesResolved_condition_iff.mpr ⟨hleft.congr rfl, hright⟩

theorem namesResolved_of_reduce (hagain : session.KeepsNames again) {e s : Expr}
    (he : e.NamesResolved session.schema scope.table)
    (hreduce : session.reduce again scope e = .ok s) :
    s.NamesResolved session.schema scope.table := by
  cases e with
  | condition m op left right =>
      obtain ⟨hleft, hright⟩ := Expr.namesResolved_condition_iff.mp he
      exact namesResolved_of_reduceCondition hagain (hleft.congr rfl) hright hreduce
  | var m v =>
      cases hreduce
      obtain ⟨_, _, hs⟩ | ⟨_, _, hs⟩ | hs := session.inlineVariable_cases m v
      · rw [hs]
        exact namesResolved_literal rfl
      · rw [hs]
        exact namesResolved_literal rfl
      · rw [hs]
        exact he
  | arithmetic m op left right type =>
      obtain ⟨_, _, rfl⟩ | ⟨_, _, rfl⟩ | rfl := foldArithmetic_eq_ok hreduce
      · exact namesResolved_literal rfl
      · exact namesResolved_literal rfl
      · exact he
  | _ =>
      cases hreduce
      exact he

theorem namesResolved_ofOperands {m : Mark} {connective : Connective} {kept : List Expr}
    {table : Option TableRef} (hkept : ∀ k ∈ kept, k.NamesResolved session.schema table) :
    (Expr.ofOperands m connective kept).NamesResolved session.schema table := by
  match kept with
  | [] => exact Expr.namesResolved_of_nil rfl rfl
  | [single] => exact hkept single (by simp)
  | first :: second :: others => exact Expr.namesResolved_junction_iff.mpr hkept

/-- Simplification keeps names resolved. -/
theorem namesResolved_of_simplifyWith (hagain : session.KeepsNames again) (e : Expr)
    (scope : Scope) (s : Expr) (he : e.NamesResolved session.schema scope.table)
    (hsimplify : Expr.simplifyWith (session.reduce again) scope e = .ok s) :
    s.NamesResolved session.schema scope.table := by
  induction e generalizing scope s with
  | list m items ih =>
      obtain ⟨items', hitems, hreduce⟩ := bind_eq_ok_iff.mp hsimplify
      cases hreduce
      have hresolved := Expr.namesResolved_list_iff.mp he
      apply Expr.namesResolved_list_iff.mpr
      refine Expr.forall_of_simplifyAll ?_ hitems
      intro item hitem s hs
      exact ih item hitem scope s (hresolved item hitem) hs
  | condition m op left right ih =>
      obtain ⟨hleft, hright⟩ := Expr.namesResolved_condition_iff.mp he
      obtain ⟨right', hsimplified, hreduce⟩ := Expr.simplifyWith_condition hsimplify
      exact namesResolved_of_reduceCondition hagain (hleft.congr rfl)
        (ih (scope.withField left) right' hright hsimplified) hreduce
  | arithmetic m op left right type ihleft ihright =>
      obtain ⟨hleft, hright⟩ := Expr.namesResolved_arithmetic_iff.mp he
      obtain ⟨left', hleft', hsimplify⟩ := bind_eq_ok_iff.mp hsimplify
      obtain ⟨right', hright', hreduce⟩ := bind_eq_ok_iff.mp hsimplify
      refine namesResolved_of_reduce hagain ?_ hreduce
      apply Expr.namesResolved_arithmetic_iff.mpr
      exact ⟨ihleft scope left' hleft hleft', ihright scope right' hright hright'⟩
  | junction m connective operands ih =>
      have hoperands := Expr.namesResolved_junction_iff.mp he
      obtain ⟨kept, hfold, hreduce⟩ | ⟨-, hreduce⟩ := Expr.simplifyWith_junction hsimplify
      · refine namesResolved_of_reduce hagain (namesResolved_ofOperands fun k hk => ?_) hreduce
        obtain ⟨-, operand, hoperand, hs⟩ := (Expr.foldOperands_eq_some hfold).1 k hk
        exact ih operand hoperand scope k (hoperands operand hoperand) hs
      · cases hreduce
        exact Expr.namesResolved_of_nil rfl rfl
  | not m operand ih =>
      obtain ⟨operand', hoperand, hcases⟩ := Expr.simplifyWith_not hsimplify
      obtain ⟨hfields, hvariables⟩ := ih scope operand' ⟨he.fields, he.variableRefs⟩ hoperand
      obtain ⟨inner, rfl⟩ | ⟨inner, value, rfl, hreduce⟩ | hreduce := hcases
      · exact ⟨hfields, hvariables⟩
      · cases hreduce
        exact Expr.namesResolved_of_nil rfl rfl
      · cases hreduce
        exact ⟨hfields, hvariables⟩
  | ever m operand ih =>
      obtain ⟨operand', hoperand, hcases⟩ := Expr.simplifyWith_ever hsimplify
      obtain ⟨hfields, hvariables⟩ := ih scope operand' ⟨he.fields, he.variableRefs⟩ hoperand
      obtain ⟨inner, rfl⟩ | ⟨inner, value, rfl, hreduce⟩ | ⟨-, hreduce⟩ := hcases
      · exact ⟨hfields, hvariables⟩
      · cases hreduce
        exact Expr.namesResolved_of_nil rfl rfl
      · cases hreduce
        exact ⟨hfields, hvariables⟩
  | _ => exact namesResolved_of_reduce hagain he hsimplify

theorem keepsNames_simplifyRounds (rounds : Nat) :
    session.KeepsNames (Expr.simplifyRounds session.reduce rounds) := by
  induction rounds with
  | zero =>
      intro scope e s he hs
      cases hs
      exact he
  | succ rounds ih =>
      intro scope e s he hs
      exact namesResolved_of_simplifyWith ih e scope s he hs

end Session

/-! ## Types -/

namespace Expr

theorem dataType_of_commonType {e : Expr} {es : List Expr} {type : DataType}
    (htype : type ≠ .unknown) (hcommon : (commonType (e :: es)).getD .unknown = type) :
    ∀ item ∈ e :: es, item.dataType = type := by
  have hall : ∀ {type : DataType} {es : List Expr}, allOfType type es = true →
      ∀ item ∈ es, item.dataType = type := by
    intro type es hes
    induction es with
    | nil => simp
    | cons e es ih =>
        rw [allOfType, Bool.and_eq_true, beq_iff_eq] at hes
        exact List.forall_mem_cons.mpr ⟨hes.1, ih hes.2⟩
  rw [commonType] at hcommon
  split at hcommon
  · rename_i hes
    cases hcommon
    exact List.forall_mem_cons.mpr ⟨rfl, hall hes⟩
  · exact absurd hcommon.symm htype

theorem castsTo_unknown (dates : DateStyle) (e : Expr) : e.castsTo dates .unknown = .ok true := by
  cases e <;> rfl

/-- A list can be compared with a value if each of its items can. -/
theorem castsTo_list_iff {dates : DateStyle} {target : DataType} {m : Mark} {items : List Expr} :
    (Expr.list m items).castsTo dates target = .ok true ↔
      ∀ item ∈ items, item.castsTo dates target = .ok true := by
  have hall : allCastTo dates target items = .ok true ↔
      ∀ item ∈ items, item.castsTo dates target = .ok true := by
    induction items with
    | nil => simp [allCastTo]
    | cons item items ih =>
        rw [allCastTo, bind_eq_ok_iff, List.forall_mem_cons, ← ih]
        simp [Bool.exists_bool, pure, Except.pure]
  rw [castsTo]
  split
  · rename_i hunknown
    subst hunknown
    exact iff_of_true rfl fun item _ => castsTo_unknown dates item
  · exact hall

/-- What can be compared with a date or a number is no clause. -/
theorem dataType_ne_bool_of_castsTo {dates : DateStyle} {target : DataType}
    (htarget : target = .date ∨ target = .numeric) (e : Expr)
    (hcasts : e.castsTo dates target = .ok true) : e.dataType ≠ .bool := by
  induction e with
  | var m v =>
      rintro (htype : v.type = .bool)
      obtain rfl | rfl := htarget <;> simp [castsTo, htype, variableCastsTo] at hcasts
  | list m items ih =>
      intro htype
      cases items with
      | nil => cases htype
      | cons item items =>
          have hitem := dataType_of_commonType (by simp) htype item (by simp)
          exact ih item (by simp) (castsTo_list_iff.mp hcasts item (by simp)) hitem
  | arithmetic m op left right type ihleft ihright =>
      rintro (htype : type = .bool)
      obtain rfl | rfl := htarget <;> simp [castsTo, htype] at hcasts
  | field m f =>
      rintro (htype : f.type = .bool)
      obtain rfl | rfl := htarget <;> simp [castsTo, htype] at hcasts
  | string m value => nofun
  | number m value => nofun
  | _ => obtain rfl | rfl := htarget <;> cases hcasts

end Expr

namespace Session

variable {session : Session} {again : Reduction} {scope : Scope}

theorem variableType_ne_bool (target : String) : session.variableType target ≠ .bool := by
  unfold variableType
  split
  · rename_i value _
    cases value <;> nofun
  · split
    · nofun
    · split <;> nofun

theorem verifyArithmetic_eq_ok_iff {left right : Expr} {span : Span} :
    session.verifyArithmetic left right span = .ok () ↔
      (left.castsTo session.dates .date <||> left.castsTo session.dates .numeric) = .ok true ∧
        right.dataType = .numeric := by
  rw [verifyArithmetic, bind_eq_ok_iff]
  simp [check_bind_eq_ok_iff, Error.ensure_eq_ok_iff, Bool.exists_bool]

theorem arithmeticType_ne_bool {m : Mark} {op : Arithmetic} {left right : Expr} {type : DataType}
    (hresolved : (Expr.arithmetic m op left right type).Resolved session.schema scope) :
    type ≠ .bool := by
  obtain ⟨⟨-, -, -, -, rfl⟩, hverify⟩ := hresolved
  obtain ⟨hcasts, -⟩ := verifyArithmetic_eq_ok_iff.mp hverify
  unfold Expr.arithmeticType
  split
  · nofun
  · nofun
  · obtain hdate | ⟨-, hnumeric⟩ := orM_eq_ok_true_iff.mp hcasts
    · exact Expr.dataType_ne_bool_of_castsTo (.inl rfl) left hdate
    · exact Expr.dataType_ne_bool_of_castsTo (.inr rfl) left hnumeric

/-- A constant that is true or false stands for itself. -/
theorem settled_of_resolved_bool (e : Expr) (hresolved : e.Resolved session.schema scope)
    (htype : e.dataType = .bool) (hoperand : e.isOperand = true) : session.Settled scope e := by
  induction e with
  | boolean m value => rfl
  | truth m value => rfl
  | field m f => rfl
  | var m v =>
      obtain ⟨found, -, -, hv⟩ := hresolved.1
      exact absurd (hv.symm.trans htype) (variableType_ne_bool found.target)
  | list m items ih =>
      apply settled_list_iff.mpr
      intro item hitem
      obtain ⟨hitemResolved, hconst⟩ := Expr.allResolved_iff.mp hresolved.1 item hitem
      have hconst := Expr.isOperand_of_isConst (Error.ensure_eq_ok_iff.mp hconst)
      cases items with
      | nil => cases hitem
      | cons first others =>
          exact ih item hitem hitemResolved
            (Expr.dataType_of_commonType (by simp) htype item hitem) hconst
  | arithmetic m op left right type ihleft ihright => exact absurd htype (arithmeticType_ne_bool hresolved)
  | string m value | number m value => cases htype
  | _ => cases hoperand

/-- A part of a clause: a condition, or a resolved value that is true or false. -/
def ClausePart (session : Session) (scope : Scope) : Expr → Prop
  | .condition .. | .junction .. | .not .. | .ever .. => True
  | e => e.dataType = .bool ∧ e.isOperand = true ∧ session.Settled scope e ∧
      e.Resolved session.schema scope

theorem dataType_of_clausePart {e : Expr} (he : session.ClausePart scope e) :
    e.dataType = .bool := by
  cases e <;> first | rfl | exact he.1

theorem clausePart_truth (m : Mark) (value : Bool) :
    session.ClausePart scope (.truth m value) :=
  ⟨rfl, rfl, rfl, trivial, rfl⟩

theorem clausePart_of_resolved {e : Expr} (hresolved : e.Resolved session.schema scope)
    (htype : e.dataType = .bool) : session.ClausePart scope e := by
  cases e with
  | condition | junction | not | ever => trivial
  | list m items =>
      have hconst := Expr.isConst_of_resolved_list hresolved
      exact ⟨htype, hconst, settled_of_resolved_bool _ hresolved htype hconst, hresolved⟩
  | arithmetic m op left right type =>
      have hconst := Expr.isConst_of_resolved_arithmetic hresolved
      exact ⟨htype, hconst, settled_of_resolved_bool _ hresolved htype hconst, hresolved⟩
  | _ => exact ⟨htype, rfl, settled_of_resolved_bool _ hresolved htype rfl, hresolved⟩

theorem everywhere_clausePart_of_resolved (e : Expr) (hresolved : e.Resolved session.schema scope)
    (htype : e.dataType = .bool) : e.Everywhere (session.ClausePart scope) :=
  Expr.everywhere_of_resolved (fun _ => clausePart_of_resolved) e hresolved
    (clausePart_of_resolved hresolved htype)

/-- What holds of comparisons with the ends of a day, and of two of them together, holds
of what a comparison with the day becomes. -/
theorem everywhere_of_dayCondition {P : Expr → Prop} {m : Mark} {op : Comparison} {left : FieldRef}
    {first following e : Expr}
    (hboth : ∀ {connective low high}, P (.compare low left.reference first) →
      P (.compare high left.reference following) → P (.junction m connective
        [.compare low left.reference first, .compare high left.reference following]))
    (hone : ∀ {mark bound field value}, bound = .less ∨ bound = .greaterOrEquals →
      field = left ∨ field = left.reference → value = first ∨ value = following →
        P (.condition mark bound field value))
    (hday : dayCondition? m left first following op = some e) : e.Everywhere P := by
  cases op with
  | equals =>
      cases hday
      have hlow : P (.compare .greaterOrEquals left.reference first) :=
        hone (.inr rfl) (.inr rfl) (.inl rfl)
      have hhigh : P (.compare .less left.reference following) :=
        hone (.inl rfl) (.inr rfl) (.inr rfl)
      exact ⟨hboth hlow hhigh, hlow, hhigh, trivial⟩
  | notEquals =>
      cases hday
      have hlow : P (.compare .less left.reference first) := hone (.inl rfl) (.inr rfl) (.inl rfl)
      have hhigh : P (.compare .greaterOrEquals left.reference following) :=
        hone (.inr rfl) (.inr rfl) (.inr rfl)
      exact ⟨hboth hlow hhigh, hlow, hhigh, trivial⟩
  | less =>
      cases hday
      exact hone (.inl rfl) (.inl rfl) (.inl rfl)
  | greaterOrEquals =>
      cases hday
      exact hone (.inr rfl) (.inl rfl) (.inl rfl)
  | greater =>
      cases hday
      exact hone (.inr rfl) (.inl rfl) (.inr rfl)
  | lessOrEquals =>
      cases hday
      exact hone (.inl rfl) (.inl rfl) (.inr rfl)
  | _ => cases hday

theorem everywhere_clausePart_of_dayCondition {m : Mark} {op : Comparison} {left : FieldRef}
    {first following e : Expr} (hday : dayCondition? m left first following op = some e) :
    e.Everywhere (session.ClausePart scope) :=
  everywhere_of_dayCondition (fun _ _ => trivial) (fun _ _ _ => trivial) hday

theorem everywhere_clausePart_alternatives {m : Mark} {left : FieldRef} {items : List Expr} :
    (alternatives m left items).Everywhere (session.ClausePart scope) := by
  refine ⟨trivial, Expr.allEverywhere_iff.mpr fun operand hoperand => ?_⟩
  obtain ⟨item, -, rfl⟩ := List.mem_map.mp hoperand
  trivial

def KeepsClauses (session : Session) (simplify : Reduction) : Prop :=
  ∀ scope e s, e.Everywhere (session.ClausePart scope) →
    e.NamesResolved session.schema scope.table → simplify scope e = .ok s →
      s.Everywhere (session.ClausePart scope)

/-- A condition is reduced to a clause. -/
theorem everywhere_clausePart_of_reduceCondition (hagain : session.KeepsClauses again) {m : Mark}
    {op : Comparison} {left : FieldRef} {right e : Expr}
    (hleft : left.Resolved session.schema scope)
    (hright : right.NamesResolved session.schema scope.table)
    (hreduce : session.reduceCondition again scope m op left right = .ok e) :
    e.Everywhere (session.ClausePart scope) := by
  cases reduced_of_reduceCondition hreduce with
  | choice listMark items hop hlist hchoice =>
      rw [hlist] at hright
      apply hagain scope _ e everywhere_clausePart_alternatives _ hchoice
      exact namesResolved_alternatives hleft (Expr.namesResolved_list_iff.mp hright)
  | emptySearch hop htext he =>
      rw [he]
      exact clausePart_truth _ _
  | project project hop hid htext hproject he =>
      obtain ⟨hresolved, area, -, hshape⟩ := projectCondition_eq_ok he
      apply everywhere_clausePart_of_resolved e hresolved
      rw [hshape]
      split <;> rfl
  | day text hop hday htype htext hnonempty he =>
      obtain ⟨t, next, -, -, -, he⟩ := splitDay_eq_ok_dayCondition hleft he
      exact everywhere_clausePart_of_dayCondition he
  | present id hop hid hpresent htext he =>
      rw [he]
      exact clausePart_truth _ _
  | same hop he =>
      rw [he]
      trivial

def KnownPart (session : Session) (scope : Scope) (e : Expr) : Prop :=
  session.ClausePart scope e ∧ e.NamesResolved session.schema scope.table

theorem everywhere_knownPart {e : Expr} (he : e.Everywhere (session.ClausePart scope))
    (hnames : e.NamesResolved session.schema scope.table) :
    e.Everywhere (session.KnownPart scope) := by
  induction e with
  | junction m connective operands ih =>
      refine ⟨⟨he.1, hnames⟩, Expr.allEverywhere_iff.mpr fun operand hoperand => ?_⟩
      exact ih operand hoperand (Expr.allEverywhere_iff.mp he.2 operand hoperand)
        (Expr.namesResolved_junction_iff.mp hnames operand hoperand)
  | not m operand ih | ever m operand ih =>
      exact ⟨⟨he.1, hnames⟩, ih he.2 ⟨hnames.fields, hnames.variableRefs⟩⟩
  | _ => exact ⟨he, hnames⟩

theorem hereditary_knownPart : Expr.Hereditary (session.KnownPart scope) where
  truth m value := ⟨clausePart_truth m value, Expr.namesResolved_of_nil rfl rfl⟩
  junction hoperands := by
    refine ⟨trivial, Expr.namesResolved_junction_iff.mpr fun operand hoperand => ?_⟩
    exact (hoperands operand hoperand).2.self.2
  not _ _ hoperand := ⟨trivial, hoperand.self.2.fields, hoperand.self.2.variableRefs⟩

/-- A clause is simplified to a clause. -/
theorem keepsClauses_simplifyWith (hclauses : session.KeepsClauses again)
    (hnames : session.KeepsNames again) :
    session.KeepsClauses (Expr.simplifyWith (session.reduce again)) := by
  intro scope e s hclause hresolved hsimplify
  have hreduce : ∀ {m op left right s},
      session.KnownPart scope (.condition m op left right) →
        session.reduceCondition again scope m op left right = .ok s →
          s.Everywhere (session.KnownPart scope) := by
    intro m op left right s he hs
    obtain ⟨hleft, hright⟩ := Expr.namesResolved_condition_iff.mp he.2
    apply everywhere_knownPart
    · exact everywhere_clausePart_of_reduceCondition hclauses (hleft.congr rfl) hright hs
    · exact namesResolved_of_reduceCondition hnames (hleft.congr rfl) hright hs
  refine (everywhere_of_yields hereditary_knownPart ?_ ?_ ?_ hsimplify).imp fun _ => And.left
  · intro e s hleaf he hs
    cases e with
    | condition m op left right => exact hreduce he hs
    | junction | not | ever => cases hleaf
    | _ =>
      rw [reduce_of_settled rfl he.1.2.2.1] at hs
      cases hs
      exact he
  · refine (everywhere_knownPart hclause hresolved).imp fun e he hleaf s hs => ?_
    cases e with
    | condition m op left right =>
      obtain ⟨right', hright', hs⟩ := Expr.simplifyWith_condition hs
      obtain ⟨hleft, hright⟩ := Expr.namesResolved_condition_iff.mp he.2
      refine hreduce ⟨trivial, Expr.namesResolved_condition_iff.mpr ⟨hleft, ?_⟩⟩ hs
      exact namesResolved_of_simplifyWith hnames right (scope.withField left) right' hright hright'
    | junction | not | ever => cases hleaf
    | _ =>
      obtain ⟨hvalue, -, -⟩ := operandValue?_of_simplifyWith he.1.2.1 hs
      cases Option.some.inj (hvalue.symm.trans he.1.2.2.1)
      exact he
  · apply everywhere_admits
    intro m operand _ _ hoperand
    exact ⟨trivial, hoperand.self.2.fields, hoperand.self.2.variableRefs⟩

/-- A simplified clause is a clause. -/
theorem everywhere_clausePart_of_simplify {e s : Expr} (he : e.Resolved session.schema scope)
    (htype : e.dataType = .bool) (hsimplify : session.simplify scope e = .ok s) :
    s.Everywhere (session.ClausePart scope) := by
  have hrounds : ∀ rounds,
      session.KeepsClauses (Expr.simplifyRounds session.reduce rounds) := by
    intro rounds
    induction rounds with
    | zero =>
        intro scope e s he _ hs
        cases hs
        exact he
    | succ rounds ih =>
        intro scope e s
        exact keepsClauses_simplifyWith ih (keepsNames_simplifyRounds rounds) scope e s
  exact hrounds 2 scope e s (everywhere_clausePart_of_resolved e he htype)
    (Expr.namesResolved_of_partsResolved e scope he.1) hsimplify

end Session

end TrackerQuery

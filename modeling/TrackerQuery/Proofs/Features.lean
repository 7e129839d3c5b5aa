import TrackerQuery.Compile
import TrackerQuery.Proofs.Lockstep
import TrackerQuery.Proofs.Resolved
import TrackerQuery.Proofs.Resolving

/-!
# Features of the server

A server with more features accepts more queries and treats those it accepted before
in the same way.  A query that needs a further feature is refused because the server
does not support it, or because the server would have to know a macro.
-/

namespace TrackerQuery

structure Features where
  fieldComparison : Bool
  linkQueries : Bool
  inGroup : Bool
  /-- Unknown macros are left to the server. -/
  macros : Bool
  deriving DecidableEq

structure Features.Within (fewer more : Features) : Prop where
  fieldComparison : fewer.fieldComparison = true → more.fieldComparison = true
  linkQueries : fewer.linkQueries = true → more.linkQueries = true
  inGroup : fewer.inGroup = true → more.inGroup = true
  macros : fewer.macros = true → more.macros = true

namespace Settings

def features (settings : Settings) : Features where
  fieldComparison := settings.supportsFieldComparison
  linkQueries := settings.supportsLinkQueries
  inGroup := settings.supportsInGroup
  macros := settings.serverSideMacros

def withFeatures (settings : Settings) (features : Features) : Settings :=
  { settings with
    supportsFieldComparison := features.fieldComparison
    supportsLinkQueries := features.linkQueries
    supportsInGroup := features.inGroup
    serverSideMacros := features.macros }

end Settings

/-- The failure of a query for want of a feature. -/
def Error.WantsFeature : Error → Prop
  | .notSupported _ => True
  | .fault cause _ => cause = .variableDoesNotExist
  | _ => False

/-- The second run does the same, unless the first fails for want of a feature. -/
abbrev Gains {α : Type} (x y : Except Error α) : Prop :=
  Follows Error.WantsFeature Eq x y

namespace Session

def withFeatures (session : Session) (features : Features) : Session :=
  { session with settings := session.settings.withFeatures features }

variable {session : Session} {features : Features}

/-! ## What features have no part in -/

theorem definition_withFeatures :
    (session.withFeatures features).definition = session.definition :=
  rfl

theorem zone_withFeatures : (session.withFeatures features).zone = session.zone :=
  rfl

theorem instant_withFeatures : (session.withFeatures features).instant = session.instant := by
  have hdates : (session.withFeatures features).dates = session.dates := rfl
  funext text span
  rw [instant, instant, hdates]

theorem verifyOrdering_withFeatures (earlier list : List FieldRef) :
    (session.withFeatures features).verifyOrdering earlier list =
      session.verifyOrdering earlier list := by
  induction list generalizing earlier with
  | nil => rfl
  | cons field later ih => simp only [verifyOrdering, definition_withFeatures, ih]

theorem bindFields_withFeatures (scope : Scope) (list : FieldList) :
    list.bind (session.withFeatures features).schema scope = list.bind session.schema scope := by
  have hfields : FieldRef.bind (session.withFeatures features).schema scope =
      FieldRef.bind session.schema scope := rfl
  have hverify : (session.withFeatures features).schema.verifyFields =
      session.schema.verifyFields := by
    funext list
    show verifyFields _ list = verifyFields _ list
    simp only [verifyFields, verifyOrdering_withFeatures]
    rfl
  simp only [FieldList.bind, hfields, hverify]

theorem foldArithmetic_withFeatures (scope : Scope) (m : Mark) (op : Arithmetic)
    (left right : Expr) (type : DataType) :
    (session.withFeatures features).foldArithmetic scope m op left right type =
      session.foldArithmetic scope m op left right type := by
  have hdate : (session.withFeatures features).foldDate = session.foldDate := by
    funext left op factor text span textSpan
    simp only [foldDate, instant_withFeatures, shiftDate, dateLiteral, zone_withFeatures]
  simp only [foldArithmetic, hdate]

variable (hmore : session.settings.features.Within features)

include hmore

/-! ## Names and rules -/

theorem gains_findTable (name : String) :
    Gains (session.findTable name) ((session.withFeatures features).findTable name) := by
  unfold findTable
  split
  · exact .refl _
  · generalize QueryMode.ofTable name = mode
    by_cases hlinks : (mode.isLinkQuery && !session.settings.supportsLinkQueries) = true
    · rw [if_pos hlinks]
      exact .excused trivial
    · have hmoreLinks : ¬(mode.isLinkQuery && !features.linkQueries) = true := by
        have hkept : session.settings.supportsLinkQueries = true → features.linkQueries = true :=
          hmore.linkQueries
        simp_all
      rw [if_neg hlinks]
      exact .of_eq (if_neg hmoreLinks)

theorem gains_verifyFieldComparison (definition : FieldDefinition) (left other : FieldRef)
    (span : Span) (mode : QueryMode) :
    Gains (session.verifyFieldComparison definition left other span mode)
      ((session.withFeatures features).verifyFieldComparison definition left other span mode) :=
  (Follows.ensure_of_imp (by exact trivial) hmore.fieldComparison).bind_eq fun _ => .refl _

theorem gains_verifyGroup (definition : FieldDefinition) :
    Gains (session.verifyGroup definition)
      ((session.withFeatures features).verifyGroup definition) :=
  .ite (fun _ => .refl _) fun _ =>
    (Follows.ensure_of_imp (by exact trivial) hmore.inGroup).bind_eq fun _ => .refl _

theorem gains_verifyValue (definition : FieldDefinition) (left : FieldRef) (op : Comparison)
    (right : Expr) (span : Span) (mode : QueryMode) :
    Gains (session.verifyValue definition left op right span mode)
      ((session.withFeatures features).verifyValue definition left op right span mode) :=
  .ite (fun _ => (gains_verifyGroup hmore definition).bind_eq fun _ => .refl _) fun _ => .refl _

theorem gains_verifyComparison (left : FieldRef) (op : Comparison) (right : Expr) (span : Span)
    (mode : QueryMode) :
    Gains (session.verifyComparison left op right span mode)
      ((session.withFeatures features).verifyComparison left op right span mode) := by
  refine (Follows.refl _).bind_eq fun _ => (Follows.refl _).bind_eq fun definition => ?_
  cases right with
  | field m other => exact gains_verifyFieldComparison hmore definition left other span mode
  | _ => exact .ite (fun _ => .refl _) fun _ => gains_verifyValue hmore ..

theorem gains_verifyCondition (left : FieldRef) (op : Comparison) (right : Expr) (span : Span)
    (mode : QueryMode) :
    Gains (session.verifyCondition left op right span mode)
      ((session.withFeatures features).verifyCondition left op right span mode) := by
  refine (gains_verifyComparison hmore left op right span mode).bind_eq fun _ => ?_
  split
  · refine .forEach (List.forall₂_same.mpr fun _ _ => rfl) fun item _ hsame => ?_
    rw [← hsame]
    exact gains_verifyComparison hmore left .equals item span mode
  · exact .refl _

theorem gains_verifyExpr (scope : Scope) (e : Expr) :
    Gains (session.verifyExpr scope e) ((session.withFeatures features).verifyExpr scope e) := by
  cases e with
  | condition m op left right => exact gains_verifyCondition hmore left op right m.span scope.mode
  | _ => exact .refl _

/-! ## Resolving -/

theorem findVariable_withFeatures {name : String} {found : Macro}
    (hfound : session.findVariable name = some found) :
    (session.withFeatures features).findVariable name = some found := by
  have hkept : session.settings.serverSideMacros = true → features.macros = true := hmore.macros
  show (if session.context.has name then some { target := name }
    else if Text.sameIgnoringCase name "me" then some { target := "me" }
    else if Text.sameIgnoringCase name "today" then some { target := "today" }
    else if features.macros then some { target := name, leftToServer := true }
    else none) = some found
  unfold findVariable at hfound
  grind

theorem gains_bindVariable (m : Mark) (v : Variable) :
    Gains (Expr.bindVariable session.schema m v).toExcept
      (Expr.bindVariable (session.withFeatures features).schema m v).toExcept := by
  unfold Expr.bindVariable
  cases hname : session.findVariable v.name with
  | none =>
      have hnone : session.schema.findVariable v.name = none := hname
      rw [hnone]
      exact .excused rfl
  | some found =>
      have hfound : session.schema.findVariable v.name = some found := hname
      have hfound' : (session.withFeatures features).schema.findVariable v.name = some found :=
        findVariable_withFeatures hmore hname
      rw [hfound, hfound']
      exact .refl _

theorem gains_bind_of_bindParts {scope : Scope} {e : Expr}
    (hparts : Gains (e.bindParts session.schema scope).toExcept
      (e.bindParts (session.withFeatures features).schema scope).toExcept) :
    Gains (e.bind session.schema scope).toExcept
      (e.bind (session.withFeatures features).schema scope).toExcept :=
  hparts.check_eq fun bound => gains_verifyExpr hmore scope bound

theorem gains_bindAll {scope : Scope} (test : Expr → Except Error Unit) {es : List Expr}
    (hparts : ∀ e ∈ es, Gains (e.bindParts session.schema scope).toExcept
      (e.bindParts (session.withFeatures features).schema scope).toExcept) :
    Gains (Expr.bindAll session.schema scope test es).toExcept
      (Expr.bindAll (session.withFeatures features).schema scope test es).toExcept := by
  induction es with
  | nil => exact .refl _
  | cons e es ih =>
      rw [Expr.toExcept_bindAll_cons, Expr.toExcept_bindAll_cons]
      have hfirst := gains_bind_of_bindParts hmore (hparts e List.mem_cons_self)
      have hothers := ih fun e he => hparts e (List.mem_cons_of_mem _ he)
      exact (hfirst.check_eq fun _ => .refl _).bind_eq fun first =>
        hothers.map fun _ _ => congrArg (first :: ·)

/-- With more features the same parts are resolved, and perhaps more. -/
theorem gains_bindParts (scope : Scope) (e : Expr) :
    Gains (e.bindParts session.schema scope).toExcept
      (e.bindParts (session.withFeatures features).schema scope).toExcept := by
  induction e generalizing scope with
  | var m v => exact gains_bindVariable hmore m v
  | list m items ih =>
      exact (gains_bindAll hmore _ fun e he => ih e he scope).attempt_map fun _ _ =>
        congrArg (Expr.list m)
  | condition m op left right ih =>
      rw [Expr.toExcept_bindParts_condition, Expr.toExcept_bindParts_condition]
      refine Follows.bind_eq (.refl _) fun left => ?_
      have hright := gains_bind_of_bindParts hmore (ih (scope.withField left))
      exact (hright.check_eq fun _ => .refl _).bind_eq fun _ => .refl _
  | arithmetic m op left right type ihleft ihright =>
      rw [Expr.toExcept_bindParts_arithmetic, Expr.toExcept_bindParts_arithmetic]
      refine (gains_bind_of_bindParts hmore (ihleft scope)).bind_eq fun left => ?_
      exact (gains_bind_of_bindParts hmore (ihright scope)).bind_eq fun right => .refl _
  | junction m connective operands ih =>
      exact (gains_bindAll hmore _ fun e he => ih e he scope).attempt_map fun _ _ =>
        congrArg (Expr.junction m connective)
  | not m operand ih =>
      have hoperand := gains_bind_of_bindParts hmore (ih scope)
      exact (hoperand.check_eq fun _ => .refl _).attempt_map fun _ _ => congrArg (Expr.not m)
  | ever m operand ih =>
      have hoperand := gains_bind_of_bindParts hmore (ih scope)
      exact (hoperand.check_eq fun _ => .refl _).attempt_map fun _ _ => congrArg (Expr.ever m)
  | _ => exact .refl _

theorem gains_bind (scope : Scope) (e : Expr) :
    Gains (e.bind session.schema scope).toExcept
      (e.bind (session.withFeatures features).schema scope).toExcept :=
  gains_bind_of_bindParts hmore (gains_bindParts hmore scope e)

/-! ## Queries -/

theorem gains_bindTable (query : Select) :
    Gains (query.bindTable session.schema)
      (query.bindTable (session.withFeatures features).schema) := by
  unfold Select.bindTable
  cases query.table with
  | none => exact .refl _
  | some table =>
      have htable : Gains (table.bind session.schema)
          (table.bind (session.withFeatures features).schema) :=
        (gains_findTable hmore table.name).bind_eq fun _ => .refl _
      exact htable.bind_eq fun _ => .refl _

/-- With more features the same queries are resolved, and perhaps more. -/
theorem gains_bindQuery (query : Select) :
    Gains (session.bind query) ((session.withFeatures features).bind query) := by
  unfold Session.bind
  rw [Select.bind_eq, Select.bind_eq]
  refine (gains_bindTable hmore query).bind_eq fun table => ?_
  have hlist : ∀ list : FieldList, Gains (list.bind session.schema { table := some table })
      (list.bind (session.withFeatures features).schema { table := some table }) :=
    fun list => .of_eq (bindFields_withFeatures _ list)
  refine Follows.bind_eq (.onClause_eq _ hlist) fun columns => ?_
  refine Follows.bind_eq (.onClause_eq _ fun filter => ?_) fun filter => ?_
  · exact (gains_bind hmore _ filter).bind_eq fun _ => .refl _
  refine Follows.bind_eq (.onClause_eq _ hlist) fun grouping => ?_
  refine Follows.bind_eq (.onClause_eq _ hlist) fun ordering => ?_
  refine Follows.bind_eq (.onClause_eq _ fun moment => ?_) fun asOf => .refl _
  exact (gains_bind hmore _ moment).bind_eq fun _ => .refl _

/-! ## Simplifying -/

theorem gains_projectCondition (scope : Scope) (m : Mark) (op : Comparison) (left : FieldRef)
    (project : String) (span : Span) :
    Gains (session.projectCondition scope m op left project span)
      ((session.withFeatures features).projectCondition scope m op left project span) := by
  unfold projectCondition
  have hcatalog : (session.withFeatures features).catalog = session.catalog := rfl
  rw [hcatalog]
  cases session.catalog.fieldById? CoreField.areaPath with
  | none => exact .refl _
  | some area => exact gains_bind hmore scope _

theorem gains_splitDay (scope : Scope) (m : Mark) (op : Comparison) (left : FieldRef)
    (text : String) (span : Span) :
    Gains (session.splitDay scope m op left text span)
      ((session.withFeatures features).splitDay scope m op left text span) := by
  unfold splitDay
  rw [instant_withFeatures, zone_withFeatures]
  refine Follows.bind_eq (.refl _) fun t => Follows.bind_eq (.refl _) fun _ => ?_
  cases session.zone.addDays? t 1 with
  | none => exact .refl _
  | some next =>
      cases op with
      | equals | notEquals => exact (gains_bind hmore scope _).bind_eq fun _ => .refl _
      | _ => exact .refl _

/-- With more features conditions are reduced to the same. -/
theorem gains_reduceCondition {again again' : Reduction}
    (hagain : ∀ scope e, Gains (again scope e) (again' scope e)) (scope : Scope) (m : Mark)
    (op : Comparison) (left : FieldRef) (right : Expr) :
    Gains (session.reduceCondition again scope m op left right)
      ((session.withFeatures features).reduceCondition again' scope m op left right) := by
  refine .ite (fun _ => ?_) fun _ => .ite (fun _ => .refl _) fun _ => ?_
  · cases right with
    | list m' items => exact hagain scope _
    | _ => exact .refl _
  · refine Follows.bind_eq (.refl _) fun definition => ?_
    cases right.literal?.filter fun text => !text.isEmpty with
    | none => exact .refl _
    | some text =>
        refine .ite (fun _ => ?_) fun _ => .ite (fun _ => ?_) fun _ => .refl _
        · exact gains_projectCondition hmore scope m op left text right.span
        · exact gains_splitDay hmore scope m op left text right.span

theorem gains_reduce {again again' : Reduction}
    (hagain : ∀ scope e, Gains (again scope e) (again' scope e)) (scope : Scope) (e : Expr) :
    Gains (session.reduce again scope e)
      ((session.withFeatures features).reduce again' scope e) := by
  cases e with
  | condition m op left right => exact gains_reduceCondition hmore hagain scope m op left right
  | arithmetic m op left right type =>
      exact .of_eq (foldArithmetic_withFeatures scope m op left right type)
  | _ => exact .refl _

end Session

namespace Expr

variable {reduce reduce' : Reduction}
variable (hreduce : ∀ scope e, Gains (reduce scope e) (reduce' scope e))

include hreduce

omit hreduce in
theorem gains_simplifyAll {scope : Scope} {es : List Expr}
    (hitems : ∀ e ∈ es, Gains (simplifyWith reduce scope e) (simplifyWith reduce' scope e)) :
    Gains (simplifyAll reduce scope es) (simplifyAll reduce' scope es) := by
  induction es with
  | nil => exact .refl _
  | cons e es ih =>
      rw [simplifyAll, simplifyAll]
      have hothers := ih fun e he => hitems e (List.mem_cons_of_mem _ he)
      exact (hitems e List.mem_cons_self).bind_eq fun _ => hothers.bind_eq fun _ => .refl _

omit hreduce in
theorem gains_foldOperands {scope : Scope} (identity : Bool) {es : List Expr}
    (hitems : ∀ e ∈ es, Gains (simplifyWith reduce scope e) (simplifyWith reduce' scope e)) :
    Gains (foldOperands reduce scope identity es) (foldOperands reduce' scope identity es) := by
  induction es with
  | nil => exact .refl _
  | cons e es ih =>
      rw [foldOperands, foldOperands]
      have hothers := ih fun e he => hitems e (List.mem_cons_of_mem _ he)
      refine (hitems e List.mem_cons_self).bind_eq fun e => ?_
      cases e.truth? with
      | none => exact hothers.bind_eq fun _ => .refl _
      | some value => exact .ite (fun _ => hothers) fun _ => .refl _

/-- With more features expressions are simplified to the same. -/
theorem gains_simplifyWith (scope : Scope) (e : Expr) :
    Gains (simplifyWith reduce scope e) (simplifyWith reduce' scope e) := by
  induction e generalizing scope with
  | list m items ih =>
      rw [simplifyWith, simplifyWith]
      exact (gains_simplifyAll fun e he => ih e he scope).bind_eq fun items => hreduce scope _
  | condition m op left right ih =>
      rw [simplifyWith, simplifyWith]
      exact (ih (scope.withField left)).bind_eq fun right => hreduce scope _
  | arithmetic m op left right type ihleft ihright =>
      rw [simplifyWith, simplifyWith]
      exact (ihleft scope).bind_eq fun left => (ihright scope).bind_eq fun right => hreduce scope _
  | junction m connective operands ih =>
      rw [simplifyWith, simplifyWith]
      refine (gains_foldOperands _ fun e he => ih e he scope).bind_eq fun kept => ?_
      cases kept with
      | none => exact hreduce scope _
      | some operands => exact hreduce scope _
  | not m operand ih =>
      rw [simplifyWith, simplifyWith]
      refine (ih scope).bind_eq fun operand => ?_
      cases operand with
      | not m' inner => exact .refl _
      | _ => exact hreduce scope _
  | ever m operand ih =>
      rw [simplifyWith, simplifyWith]
      refine (ih scope).bind_eq fun operand => ?_
      cases operand with
      | ever m' inner => exact .refl _
      | _ => exact hreduce scope _
  | _ => exact hreduce scope _

end Expr

namespace Session

variable {session : Session} {features : Features}
variable (hmore : session.settings.features.Within features)

include hmore

theorem gains_simplifyRounds (rounds : Nat) (scope : Scope) (e : Expr) :
    Gains (Expr.simplifyRounds session.reduce rounds scope e)
      (Expr.simplifyRounds (session.withFeatures features).reduce rounds scope e) := by
  induction rounds generalizing scope e with
  | zero => exact .ok rfl
  | succ rounds ih => exact Expr.gains_simplifyWith (gains_reduce hmore ih) scope e

theorem gains_simplifyQuery (query : Select) :
    Gains (session.simplifyQuery query)
      ((session.withFeatures features).simplifyQuery query) := by
  refine Follows.bind_eq (.onClause_eq _ (gains_simplifyRounds hmore 2 _)) fun filter => ?_
  exact Follows.bind_eq (.onClause_eq _ (gains_simplifyRounds hmore 2 _)) fun asOf => .refl _

/-- Apart from its zone a session does not depend on features before the query is looked at. -/
theorem gains_optimize (text : String) :
    Gains (session.optimize text) ((session.withFeatures features).optimize text) := by
  refine Follows.bind_eq (.refl _) fun query => ?_
  exact (gains_bindQuery hmore query).bind_eq fun bound => gains_simplifyQuery hmore bound

end Session

namespace Compiler

def withFeatures (compiler : Compiler) (features : Features) : Compiler :=
  { compiler with settings := compiler.settings.withFeatures features }

theorem gains_optimize {compiler : Compiler} {features : Features}
    (hmore : compiler.settings.features.Within features) (text : String) :
    Gains (compiler.optimize text) ((compiler.withFeatures features).optimize text) := by
  have hsession : Follows Error.WantsFeature
      (fun session session' => session.settings = compiler.settings ∧
        session' = session.withFeatures features)
      compiler.session (compiler.withFeatures features).session :=
    Follows.bind_eq (.refl (compiler.settings.zone compiler.zones)) fun zone => .ok ⟨rfl, rfl⟩
  refine hsession.bind ?_
  rintro session session' ⟨hsettings, rfl⟩
  exact Session.gains_optimize (hsettings ▸ hmore) text

/-- With more features, what is accepted stays as it is, and what is accepted on top of it
was refused because the server does not support it or does not know a macro. -/
theorem optimize_withFeatures {compiler : Compiler} {features : Features}
    (hmore : compiler.settings.features.Within features) (text : String) :
    (∀ query, compiler.optimize text = .ok query →
      (compiler.withFeatures features).optimize text = .ok query) ∧
    ∀ error query, compiler.optimize text = .error error →
      (compiler.withFeatures features).optimize text = .ok query → error.WantsFeature := by
  have hgains := gains_optimize hmore text
  constructor
  · intro query hquery
    rw [hquery] at hgains
    obtain ⟨query', hmoreQuery, rfl⟩ := hgains.eq_ok
    exact hmoreQuery
  · intro error query herror hquery
    rw [herror, hquery] at hgains
    exact hgains.excused_of_ok

/-- A server that gains macros and comparisons of fields accepts the same query about a
field, and one more about an unknown macro. -/
theorem optimize_withFeatures_macro :
    ∃ query error query',
      let compiler : Compiler := { settings := { supportsFieldComparison := false } }
      let features : Features := ⟨true, true, true, true⟩
      let accepted := "select [System.Id] from WorkItems where [System.Title] in group @me"
      let refused := "select [System.Id] from WorkItemLinks where [Target].[Title] <> @unknown " ++
        "and [Target].[State] = [Target].[Title]"
      compiler.optimize accepted = .ok query ∧ compiler.optimize refused = .error error ∧
      (compiler.withFeatures features).optimize refused = .ok query' ∧
      (compiler.withFeatures features).optimize accepted = .ok query ∧ error.WantsFeature := by
  let compiler : Compiler := { settings := { supportsFieldComparison := false } }
  let features : Features := ⟨true, true, true, true⟩
  let accepted := "select [System.Id] from WorkItems where [System.Title] in group @me"
  let refused := "select [System.Id] from WorkItemLinks where [Target].[Title] <> @unknown " ++
    "and [Target].[State] = [Target].[Title]"
  have haccepted : (compiler.optimize accepted).toOption.isSome = true := by decide +kernel
  have hrefused : (compiler.optimize refused).toOption = none := by decide +kernel
  have hgained : ((compiler.withFeatures features).optimize refused).toOption.isSome = true := by
    decide +kernel
  obtain ⟨query, hquery⟩ := Option.isSome_iff_exists.mp haccepted
  obtain ⟨query', hquery'⟩ := Option.isSome_iff_exists.mp hgained
  have hmore : compiler.settings.features.Within features := by
    constructor <;> exact fun _ => rfl
  cases herror : compiler.optimize refused with
  | ok found =>
      rw [herror] at hrefused
      cases hrefused
  | error error =>
      have hquery := toOption_eq_some_iff.mp hquery
      have hquery' := toOption_eq_some_iff.mp hquery'
      exact ⟨query, error, query', hquery, herror, hquery',
        (optimize_withFeatures hmore accepted).1 query hquery,
        (optimize_withFeatures hmore refused).2 error query' herror hquery'⟩

end Compiler

end TrackerQuery

import TrackerQuery.Proofs.AlikeBound

/-!
# Simplifying alike queries

Expressions that say the same of the same fields are simplified to ones that do, or
fail in the same way.  What a rewrite makes anew takes its fields from the expression
or by the identity of a core field, so it can be resolved again in either.
-/

namespace TrackerQuery

def Reduction.Alike (R : FieldRef → FieldRef → Prop) (reduce reduce' : Reduction) : Prop :=
  ∀ {scope scope' : Scope} {e e' : Expr}, scope.Alike scope' → e.Alike R e' →
    Agree (Expr.Alike R) (reduce scope e) (reduce' scope' e')

namespace Session

variable {session : Session} {scope scope' : Scope} {m m' : Mark}
variable {left left' : FieldRef} {right right' : Expr}
variable {before after : FieldRef → FieldRef → Prop}

/-! ## Macros and arithmetic -/

theorem alike_dateLiteral (t : Calendar.Instant) (span span' : Span) :
    (session.dateLiteral t span).Alike after (session.dateLiteral t span') :=
  .string

theorem alike_inlineVariable (v : Variable) :
    (session.inlineVariable m v).Alike after (session.inlineVariable m' v) := by
  unfold inlineVariable
  cases v.target with
  | none => exact .var
  | some target =>
      dsimp only
      cases session.context.lookup target with
      | none =>
          dsimp only
          split
          · exact .string
          · split
            · exact .string
            · exact .var
      | some value => cases value <;> constructor

theorem agree_instant (text : String) (span span' : Span) :
    Agree Eq (session.instant text span) (session.instant text span') := by
  refine (Follows.refl (session.dates.instant text)).bind_eq fun found => ?_
  cases found with
  | none => exact .located ..
  | some t => exact .ok rfl

theorem agree_increment (text : String) (span span' : Span) :
    Agree Eq (increment text span) (increment text span') := by
  unfold increment
  cases Decimal.float? (Text.trim text) with
  | none => exact .located ..
  | some value => exact .ite (fun _ => .ok rfl) fun _ => .located ..

theorem agree_foldNumbers {left left' : Expr} (hleft : left.Alike after left')
    (factor : Float) (text : String) (span span' textSpan textSpan' : Span) :
    Agree (Expr.Alike after) (foldNumbers left factor text span textSpan)
      (foldNumbers left' factor text span' textSpan') := by
  unfold foldNumbers
  rw [hleft.literal?_eq]
  cases left'.literal?.bind fun literal => Decimal.float? (Text.trim literal) with
  | none => exact .located ..
  | some base =>
      refine (agree_increment text textSpan textSpan').bind_eq fun value => ?_
      exact .ensure_located_bind (.ok .number)

theorem agree_shiftDate (t : Calendar.Instant) (op : Arithmetic) (factor : Float)
    (text : String) (span span' : Span) :
    Agree Eq (session.shiftDate t op factor text span)
      (session.shiftDate t op factor text span') := by
  unfold shiftDate
  cases Decimal.int64? (Text.trim text) with
  | none => exact (agree_increment text span span').bind_eq fun _ => .refl _
  | some days => exact .refl _

theorem agree_foldDate {left left' : Expr} (hleft : left.Alike after left')
    (op : Arithmetic) (factor : Float) (text : String) (span span' textSpan textSpan' : Span) :
    Agree (Expr.Alike after) (session.foldDate left op factor text span textSpan)
      (session.foldDate left' op factor text span' textSpan') := by
  unfold foldDate
  rw [hleft.literal?_eq]
  cases left'.literal? with
  | none => exact .located ..
  | some literal =>
      refine (agree_instant literal left.span left'.span).bind_eq fun t => ?_
      refine (agree_shiftDate t op factor text textSpan textSpan').bind_eq fun shifted => ?_
      cases shifted with
      | none => exact .located ..
      | some shifted => exact .ok (alike_dateLiteral shifted span span')

/-- Arithmetic on alike operands has alike results. -/
theorem agree_foldArithmetic {left left' : Expr} (hscope : scope.Alike scope')
    (hleft : left.Alike after left') (hright : right.Alike after right')
    (op : Arithmetic) (type : DataType) :
    Agree (Expr.Alike after) (session.foldArithmetic scope m op left right type)
      (session.foldArithmetic scope' m' op left' right' type) := by
  cases hright with
  | @number rightMark rightMark' text =>
      unfold foldArithmetic
      rw [hscope.fieldType]
      generalize scope'.fieldType? = fieldType
      cases op with
      | missing => exact .located ..
      | add | subtract =>
          cases fieldType with
          | none => exact agree_foldNumbers hleft ..
          | some type =>
              cases type with
              | numeric => exact agree_foldNumbers hleft ..
              | date => exact agree_foldDate hleft ..
              | _ => exact .ok (.arithmetic hleft .number)
  | _ => exact .located ..

/-! ## Conditions -/

section Carried

variable (hcarried : FieldRef.Carried session.catalog before after)
include hcarried

theorem alike_alternatives {items items' : List Expr} (hleft : after left left')
    (hitems : List.Forall₂ (Expr.Alike after) items items') :
    (alternatives m left items).Alike after (alternatives m' left' items') := by
  have hside := hcarried.reference hleft
  exact .withMark (.junction (List.rel_map (fun _ _ hitem => .condition hside hitem) hitems)) m m'

/-- The area goes by its reference name in either run, so it is resolved alike. -/
theorem agree_projectCondition (hscope : scope.Alike scope') (hleft : after left left')
    (op : Comparison) (project : String) (span span' : Span) :
    Agree (Expr.Alike after) (session.projectCondition scope m op left project span)
      (session.projectCondition scope' m' op left' project span') := by
  unfold projectCondition
  cases session.catalog.fieldById? CoreField.areaPath with
  | none => exact .located ..
  | some area =>
      have hfield : before
          { name := area.referenceName, qualifier := left.qualifier, span := left.span }
          { name := area.referenceName, qualifier := left'.qualifier, span := left'.span } := by
        rw [(hcarried.same hleft).qualifier]
        exact hcarried.named ..
      refine agree_bind hcarried hscope (Expr.Alike.withMark ?_ _ _)
      split
      · exact .not (.withMark (.condition hfield .string) _ _)
      · exact .withMark (.condition hfield .string) _ _

/-- Comparisons by the day are split alike. -/
theorem agree_splitDay (hscope : scope.Alike scope') (hleft : after left left')
    (op : Comparison) (text : String) (span span' : Span) :
    Agree (Expr.Alike after) (session.splitDay scope m op left text span)
      (session.splitDay scope' m' op left' text span') := by
  refine (agree_instant text span span').bind_eq fun t => .ensure_located_bind ?_
  cases session.zone.addDays? t 1 with
  | none => exact .located ..
  | some next =>
      have hboth : ∀ connective low high, Agree (Expr.Alike after)
          ((Expr.join connective [Expr.compare low left.reference (session.dateLiteral t span),
            Expr.compare high left.reference (session.dateLiteral next span)]).bind
              session.schema scope).toExcept
          ((Expr.join connective [Expr.compare low left'.reference (session.dateLiteral t span'),
            Expr.compare high left'.reference (session.dateLiteral next span')]).bind
              session.schema scope').toExcept := by
        intro connective low high
        have hside := hcarried.again hleft
        exact agree_bind hcarried hscope (.junction
          (.cons (.condition hside .string) (.cons (.condition hside .string) .nil)))
      have hmark : ∀ e e' : Expr, e.Alike after e' → Agree (Expr.Alike after)
          (.ok (e.withMark m)) (.ok (e'.withMark m')) := fun _ _ h => .ok (h.withMark m m')
      cases op with
      | equals => exact (hboth .and .greaterOrEquals .less).bind hmark
      | notEquals => exact (hboth .or .less .greaterOrEquals).bind hmark
      | less | greaterOrEquals | greater | lessOrEquals => exact .ok (.condition hleft .string)
      | _ => exact .located ..

/-- Alike conditions are reduced alike. -/
theorem agree_reduceCondition {again again' : Reduction} (hagain : again.Alike after again')
    (hscope : scope.Alike scope') (hleft : after left left') (hright : right.Alike after right')
    (op : Comparison) :
    Agree (Expr.Alike after) (session.reduceCondition again scope m op left right)
      (session.reduceCondition again' scope' m' op left' right') := by
  have hsame := hcarried.same hleft
  unfold reduceCondition
  refine .ite (fun _ => ?_) fun _ => ?_
  · cases hright with
    | list hitems => exact hagain hscope (alike_alternatives hcarried hleft hitems)
    | _ => exact .located ..
  · rw [hright.literal?_eq]
    refine .ite (fun _ => .ok .truth) fun _ => ?_
    refine (agree_definition hsame.id).bind_eq fun definition => ?_
    dsimp only
    cases right'.literal?.filter fun text => !text.isEmpty with
    | none => exact .ite (fun _ => .ok .truth) fun _ => .ok (.condition hleft hright)
    | some text =>
        dsimp only
        rw [hsame.type]
        refine .ite (fun _ => ?_) fun _ => .ite (fun _ => ?_) fun _ => ?_
        · exact agree_projectCondition hcarried hscope hleft op text right.span right'.span
        · exact agree_splitDay hcarried hscope hleft op text right.span right'.span
        · exact .ok (.condition hleft hright)

theorem agree_reduce {again again' : Reduction} (hagain : again.Alike after again') :
    (session.reduce again).Alike after (session.reduce again') := by
  intro scope scope' e e' hscope h
  cases h with
  | condition hleft hright => exact agree_reduceCondition hcarried hagain hscope hleft hright _
  | var => exact .ok (alike_inlineVariable _)
  | arithmetic hleft hright => exact agree_foldArithmetic hscope hleft hright _ _
  | string => exact .ok .string
  | number => exact .ok .number
  | boolean => exact .ok .boolean
  | truth => exact .ok .truth
  | field hfield => exact .ok (.field hfield)
  | list hitems => exact .ok (.list hitems)
  | junction hoperands => exact .ok (.junction hoperands)
  | not hoperand => exact .ok (.not hoperand)
  | ever hoperand => exact .ok (.ever hoperand)

end Carried

end Session

/-! ## Expressions -/

namespace Expr

variable {R : FieldRef → FieldRef → Prop} {reduce reduce' : Reduction} {scope scope' : Scope}
variable {es es' : List Expr}

theorem agree_simplifyAll
    (h : List.Forall₂ (fun e e' => Agree (Alike R) (simplifyWith reduce scope e)
      (simplifyWith reduce' scope' e')) es es') :
    Agree (List.Forall₂ (Alike R)) (simplifyAll reduce scope es)
      (simplifyAll reduce' scope' es') := by
  induction h with
  | nil => exact .ok .nil
  | cons hfirst _ ih =>
      rw [simplifyAll, simplifyAll]
      exact hfirst.bind fun _ _ he => ih.bind fun _ _ hes => .ok (.cons he hes)

theorem agree_foldOperands (identity : Bool)
    (h : List.Forall₂ (fun e e' => Agree (Alike R) (simplifyWith reduce scope e)
      (simplifyWith reduce' scope' e')) es es') :
    Agree (Option.Rel (List.Forall₂ (Alike R))) (foldOperands reduce scope identity es)
      (foldOperands reduce' scope' identity es') := by
  induction h with
  | nil => exact .ok (.some .nil)
  | cons hfirst _ ih =>
      rw [foldOperands, foldOperands]
      refine hfirst.bind fun e e' he => ?_
      rw [he.truth?_eq]
      cases e'.truth? with
      | some value => exact .ite (fun _ => ih) fun _ => .ok .none
      | none =>
          refine ih.bind fun kept kept' hkept => .ok ?_
          cases hkept with
          | none => exact .none
          | some hkept => exact .some (.cons he hkept)

theorem alike_ofOperands {m m' : Mark} {connective : Connective}
    (h : List.Forall₂ (Alike R) es es') :
    (ofOperands m connective es).Alike R (ofOperands m' connective es') := by
  cases h with
  | nil => exact .truth
  | cons hfirst hothers =>
      cases hothers with
      | nil => exact hfirst
      | cons hsecond hothers => exact .junction (.cons hfirst (.cons hsecond hothers))

/-- Alike expressions are simplified alike. -/
theorem agree_simplifyWith {catalog : Catalog} (hsame : ∀ {a b}, R a b → a.Same catalog b)
    (hreduce : reduce.Alike R reduce') {e e' : Expr} (hscope : scope.Alike scope')
    (h : Alike R e e') :
    Agree (Alike R) (simplifyWith reduce scope e) (simplifyWith reduce' scope' e') := by
  induction h generalizing scope scope' with
  | list hitems ih =>
      rw [simplifyWith, simplifyWith]
      have hparts := (forall₂_of_exists_alike ih).imp fun _ _ h => h hscope
      exact (agree_simplifyAll hparts).bind fun _ _ hitems => hreduce hscope (.list hitems)
  | condition hleft hright ih =>
      rw [simplifyWith, simplifyWith]
      exact (ih (hscope.withField (hsame hleft))).bind fun _ _ hright =>
        hreduce hscope (.condition hleft hright)
  | arithmetic hleft hright ihleft ihright =>
      rw [simplifyWith, simplifyWith]
      exact (ihleft hscope).bind fun _ _ hleft => (ihright hscope).bind fun _ _ hright =>
        hreduce hscope (.arithmetic hleft hright)
  | junction hoperands ih =>
      rw [simplifyWith, simplifyWith]
      have hparts := (forall₂_of_exists_alike ih).imp fun _ _ h => h hscope
      refine (agree_foldOperands _ hparts).bind fun kept kept' hkept => ?_
      cases hkept with
      | none => exact hreduce hscope .truth
      | some hkept => exact hreduce hscope (alike_ofOperands hkept)
  | @not m m' _ _ hoperand ih =>
      rw [simplifyWith, simplifyWith]
      refine (ih hscope).bind fun operand operand' hoperand => ?_
      have hnot := hreduce hscope (@Alike.not _ m m' _ _ hoperand)
      cases hoperand with
      | not hinner => exact .ok hinner
      | truth => exact hreduce hscope .truth
      | _ => exact hnot
  | @ever m m' _ _ hoperand ih =>
      rw [simplifyWith, simplifyWith]
      refine (ih hscope).bind fun operand operand' hoperand => ?_
      have hever := hreduce hscope (@Alike.ever _ m m' _ _ hoperand)
      cases hoperand with
      | ever hinner => exact .ok hinner
      | truth => exact hreduce hscope .truth
      | _ => exact hever
  | field hfield => exact hreduce hscope (.field hfield)
  | string => exact hreduce hscope .string
  | number => exact hreduce hscope .number
  | boolean => exact hreduce hscope .boolean
  | truth => exact hreduce hscope .truth
  | var => exact hreduce hscope .var

end Expr

/-! ## Queries -/

namespace Session

variable {session : Session} {before after : FieldRef → FieldRef → Prop}
variable (hcarried : FieldRef.Carried session.catalog before after)
include hcarried

theorem agree_simplifyRounds (rounds : Nat) :
    Reduction.Alike after (Expr.simplifyRounds session.reduce rounds)
      (Expr.simplifyRounds session.reduce rounds) := by
  induction rounds with
  | zero => exact fun _ h => .ok h
  | succ rounds ih =>
      exact fun hscope h =>
        Expr.agree_simplifyWith hcarried.same (agree_reduce hcarried ih) hscope h

theorem agree_simplifyQuery {query query' : Select} (h : query.Alike after query') :
    Agree (Select.Alike after) (session.simplifyQuery query) (session.simplifyQuery query') := by
  have hscope : Scope.Alike { table := query.table } { table := query'.table } :=
    ⟨h.mode_eq, rfl⟩
  refine (Follows.onClause h.filter fun _ _ => agree_simplifyRounds hcarried 2 hscope).bind
    fun filter filter' hfilter => ?_
  refine (Follows.onClause h.asOf fun _ _ => agree_simplifyRounds hcarried 2 hscope).bind
    fun asOf asOf' hasOf => ?_
  exact .ok ⟨h.columns, h.table, hfilter, h.grouping, h.ordering, hasOf, h.modes⟩

end Session

end TrackerQuery

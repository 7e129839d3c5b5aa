import TrackerQuery.Proofs.PlacedBound
import TrackerQuery.Proofs.ReadingStops

/-!
# Places of faults

What simplification makes anew is placed where the expressions it was made of are, so
simplification and the writing of the document blame places of the text too.  With the
faults of reading, every fault of a query points into its text.
-/

namespace TrackerQuery

namespace Session

variable {text : String} {session : Session}

/-! ## Simplification -/

section Simplification

variable {scope : Scope} {m : Mark} {left : FieldRef} {right : Expr} {op : Comparison}

theorem placedIn_inlineVariable {v : Variable} (hm : m.span.PlacedIn text) :
    (session.inlineVariable m v).PlacedIn text := by
  unfold inlineVariable
  split
  · exact .var hm
  · split
    · exact .string hm
    · exact .string hm
    · exact .number hm
    · split
      · exact .string hm
      · split
        · exact .string hm
        · exact .var hm

theorem blames_instant {literal : String} {span : Span} (hspan : span.PlacedIn text) :
    Blames text (fun _ => True) (session.instant literal span) := by
  refine (blames_dates_instant ..).bind fun found _ => ?_
  cases found with
  | none => exact .fault hspan
  | some t => exact .ok trivial

theorem blames_increment {literal : String} {span : Span} (hspan : span.PlacedIn text) :
    Blames text (fun _ => True) (increment literal span) := by
  unfold increment
  split
  · exact .ite (.ok trivial) (.fault hspan)
  · exact .fault hspan

theorem blames_foldNumbers {left : Expr} {factor : Float} {literal : String}
    {span literalSpan : Span} (hspan : span.PlacedIn text)
    (hliteral : literalSpan.PlacedIn text) :
    Blames text (Expr.PlacedIn text) (foldNumbers left factor literal span literalSpan) := by
  unfold foldNumbers
  dsimp only
  split
  · exact .fault hspan
  · exact (blames_increment hliteral).bind fun _ _ => .ensure_bind hspan (.ok (.number hspan))

theorem blames_shiftDate {t : Calendar.Instant} {op : Arithmetic} {factor : Float}
    {literal : String} {span : Span} (hspan : span.PlacedIn text) :
    Blames text (fun _ => True) (session.shiftDate t op factor literal span) := by
  unfold shiftDate
  split
  · exact .ite (.ok trivial) (.ok trivial)
  · exact (blames_increment hspan).bind fun _ _ => .ok trivial

theorem blames_foldDate {left : Expr} {op : Arithmetic} {factor : Float} {literal : String}
    {span literalSpan : Span} (hleft : left.PlacedIn text) (hspan : span.PlacedIn text)
    (hliteral : literalSpan.PlacedIn text) :
    Blames text (Expr.PlacedIn text)
      (session.foldDate left op factor literal span literalSpan) := by
  unfold foldDate
  split
  · exact .fault hspan
  · refine (blames_instant hleft.span).bind fun t _ => ?_
    refine (blames_shiftDate hliteral).bind fun shifted _ => ?_
    split
    · exact .ok (.string hspan)
    · exact .fault hspan

theorem blames_foldArithmetic {left : Expr} {op : Arithmetic} {type : DataType}
    (hm : m.span.PlacedIn text) (hleft : left.PlacedIn text) (hright : right.PlacedIn text) :
    Blames text (Expr.PlacedIn text)
      (session.foldArithmetic scope m op left right type) := by
  cases hright with
  | number hnumber =>
      unfold foldArithmetic
      generalize scope.fieldType? = fieldType
      cases op with
      | missing => exact .fault hm
      | add | subtract =>
          cases fieldType with
          | none => exact blames_foldNumbers hm hnumber
          | some type =>
              cases type with
              | numeric => exact blames_foldNumbers hm hnumber
              | date => exact blames_foldDate hleft hm hnumber
              | _ => exact .ok (.arithmetic hm hleft (.number hnumber))
  | _ => exact .fault (by assumption)

theorem placedIn_alternatives {items : List Expr} (hm : m.span.PlacedIn text)
    (hleft : left.span.PlacedIn text) (hitems : ∀ e ∈ items, e.PlacedIn text) :
    (alternatives m left items).PlacedIn text := by
  refine .junction hm ?_
  rw [List.forall_mem_map]
  exact fun e he => Expr.placedIn_compare hleft (hitems e he)

theorem blames_projectCondition {project : String} {span : Span} (hm : m.span.PlacedIn text)
    (hleft : left.span.PlacedIn text) (hspan : span.PlacedIn text) :
    Blames text (Expr.PlacedIn text)
      (session.projectCondition scope m op left project span) := by
  unfold projectCondition
  split
  · exact .fault hleft
  · refine blames_bindExpr (Expr.PlacedIn.withMark ?_ ?_)
    · split
      · exact .not hm (.condition hm hleft (.string hspan))
      · exact .condition hm hleft (.string hspan)
    · dsimp only
      split <;> exact hm

/-- Splitting a day blames a place of the text. -/
theorem blames_splitDay {literal : String} {span : Span} (hm : m.span.PlacedIn text)
    (hleft : left.span.PlacedIn text) (hspan : span.PlacedIn text) :
    Blames text (Expr.PlacedIn text) (session.splitDay scope m op left literal span) := by
  refine (blames_instant hspan).bind fun t _ => .ensure_bind hm ?_
  split
  · exact .fault hspan
  · rename_i next hnext
    have hboth : ∀ connective low high, Blames text (Expr.PlacedIn text)
        ((Expr.join connective [Expr.compare low left.reference (session.dateLiteral t span),
          Expr.compare high left.reference (session.dateLiteral next span)]).bind
            session.schema scope).toExcept := by
      intro connective low high
      refine blames_bindExpr (Expr.placedIn_join (by simp) ?_)
      simp only [List.forall_mem_cons]
      exact ⟨Expr.placedIn_compare hleft (.string hspan),
        Expr.placedIn_compare hleft (.string hspan), nofun⟩
    have hmark : ∀ e : Expr, e.PlacedIn text →
        Blames text (Expr.PlacedIn text) (.ok (e.withMark m)) := fun _ he => .ok (he.withMark hm)
    cases op with
    | equals => exact (hboth .and .greaterOrEquals .less).bind hmark
    | notEquals => exact (hboth .or .less .greaterOrEquals).bind hmark
    | less | greaterOrEquals | greater | lessOrEquals =>
        exact hmark _ (Expr.placedIn_compare hleft (.string hspan))
    | _ => exact .fault hm

/-- A reduction that blames places of the text and makes what is placed there. -/
def Blaming (text : String) (reduce : Reduction) : Prop :=
  ∀ {scope : Scope} {e : Expr}, e.PlacedIn text → Blames text (Expr.PlacedIn text) (reduce scope e)

theorem blames_reduceCondition {again : Reduction} (hagain : Blaming text again)
    (hm : m.span.PlacedIn text) (hleft : left.span.PlacedIn text) (hright : right.PlacedIn text) :
    Blames text (Expr.PlacedIn text) (session.reduceCondition again scope m op left right) := by
  unfold reduceCondition
  refine .ite ?_ (.ite (.ok (.truth hm)) ?_)
  · cases hright with
    | list _ hitems => exact hagain (placedIn_alternatives hm hleft hitems)
    | _ => exact .fault (by assumption)
  · refine (blames_definition hleft).bind fun definition _ => ?_
    dsimp only
    split
    · refine .ite (blames_projectCondition hm hleft hright.span) ?_
      exact .ite (blames_splitDay hm hleft hright.span) (.ok (.condition hm hleft hright))
    · exact .ite (.ok (.truth hm)) (.ok (.condition hm hleft hright))

theorem blaming_reduce {again : Reduction} (hagain : Blaming text again) :
    Blaming text (session.reduce again) := by
  intro scope e he
  have hself : Blames text (Expr.PlacedIn text) (.ok e) := .ok he
  cases he with
  | condition hm hleft hright => exact blames_reduceCondition hagain hm hleft hright
  | var hm => exact .ok (placedIn_inlineVariable hm)
  | arithmetic hm hleft hright => exact blames_foldArithmetic hm hleft hright
  | _ => exact hself

end Simplification

end Session

namespace Expr

variable {text : String} {reduce : Reduction} {scope : Scope} {es : List Expr}

theorem blames_simplifyAll
    (hes : ∀ e ∈ es, Blames text (PlacedIn text) (simplifyWith reduce scope e)) :
    Blames text (fun es => ∀ e ∈ es, e.PlacedIn text) (simplifyAll reduce scope es) := by
  induction es with
  | nil => exact .ok nofun
  | cons e es ih =>
      rw [simplifyAll]
      obtain ⟨hfirst, hothers⟩ := List.forall_mem_cons.mp hes
      refine hfirst.bind fun e he => (ih hothers).bind fun es hes => ?_
      exact .ok (List.forall_mem_cons.mpr ⟨he, hes⟩)

theorem blames_foldOperands (identity : Bool)
    (hes : ∀ e ∈ es, Blames text (PlacedIn text) (simplifyWith reduce scope e)) :
    Blames text (fun kept => ∀ es ∈ kept, ∀ e ∈ es, e.PlacedIn text)
      (foldOperands reduce scope identity es) := by
  induction es with
  | nil => exact .ok (by simp)
  | cons e es ih =>
      rw [foldOperands]
      obtain ⟨hfirst, hothers⟩ := List.forall_mem_cons.mp hes
      refine hfirst.bind fun e he => ?_
      split
      · exact .ite (ih hothers) (.ok (by simp))
      · refine (ih hothers).bind fun kept hkept => .ok ?_
        cases kept with
        | none => simp
        | some es => simpa using ⟨he, by simpa using hkept⟩

theorem placedIn_ofOperands {m : Mark} {connective : Connective} (hm : m.span.PlacedIn text)
    (hes : ∀ e ∈ es, e.PlacedIn text) : (ofOperands m connective es).PlacedIn text := by
  unfold ofOperands
  split
  · exact .truth hm
  · exact hes _ (by simp)
  · exact .junction hm hes

/-- Simplification blames a place of the text if its reductions do. -/
theorem blames_simplifyWith (hreduce : Session.Blaming text reduce) {e : Expr}
    (he : e.PlacedIn text) : Blames text (PlacedIn text) (simplifyWith reduce scope e) := by
  induction he generalizing scope with
  | list hm hitems ih =>
      rw [simplifyWith]
      exact (blames_simplifyAll fun e he => ih e he).bind fun _ hitems => hreduce (.list hm hitems)
  | condition hm hleft hright ih =>
      rw [simplifyWith]
      exact ih.bind fun _ hright => hreduce (.condition hm hleft hright)
  | arithmetic hm hleft hright ihleft ihright =>
      rw [simplifyWith]
      exact ihleft.bind fun _ hleft => ihright.bind fun _ hright =>
        hreduce (.arithmetic hm hleft hright)
  | junction hm hoperands ih =>
      rw [simplifyWith]
      refine (blames_foldOperands _ fun e he => ih e he).bind fun kept hkept => ?_
      split
      · exact hreduce (placedIn_ofOperands hm (hkept _ rfl))
      · exact hreduce (.truth hm)
  | not hm hoperand ih =>
      rw [simplifyWith]
      refine ih.bind fun operand hoperand => ?_
      split
      · cases hoperand with
        | not _ hinner => exact .ok hinner
      · exact hreduce (.truth hm)
      · exact hreduce (.not hm hoperand)
  | ever hm hoperand ih =>
      rw [simplifyWith]
      refine ih.bind fun operand hoperand => ?_
      split
      · cases hoperand with
        | ever _ hinner => exact .ok hinner
      · exact hreduce (.truth hm)
      · exact hreduce (.ever hm hoperand)
  | string hm => exact hreduce (.string hm)
  | number hm => exact hreduce (.number hm)
  | boolean hm => exact hreduce (.boolean hm)
  | truth hm => exact hreduce (.truth hm)
  | var hm => exact hreduce (.var hm)
  | field hm hfield => exact hreduce (.field hm hfield)

end Expr

namespace Session

variable {text : String} {session : Session}

theorem blaming_simplifyRounds (rounds : Nat) :
    Blaming text (Expr.simplifyRounds session.reduce rounds) := by
  induction rounds with
  | zero => exact fun he => .ok he
  | succ rounds ih => exact fun he => Expr.blames_simplifyWith (blaming_reduce ih) he

theorem blames_simplifyQuery {query : Select} (hquery : BoundIn text query) :
    Blames text (BoundIn text) (session.simplifyQuery query) := by
  refine (Blames.onClause fun filter hmem =>
    blaming_simplifyRounds 2 (hquery.filter filter hmem)).bind fun filter hfilter => ?_
  refine (Blames.onClause fun moment hmem =>
    blaming_simplifyRounds 2 (hquery.asOf moment hmem)).bind fun asOf hasOf => ?_
  exact .ok { hquery with filter := hfilter, asOf := hasOf }

/-! ## Documents -/

section Documents

variable {polarity : Polarity} {e : Expr}

theorem blames_constant (he : e.PlacedIn text) :
    Blames text (fun _ => True) (constant e) := by
  unfold constant
  split
  · exact .ok trivial
  · exact .fault he.span

theorem blames_linkTypeId (he : e.PlacedIn text) :
    Blames text (fun _ => True) (session.linkTypeId e) := by
  unfold linkTypeId
  split
  · exact .ok trivial
  · exact .fault he.span

theorem blames_coreField {id : Int} {span : Span} (hspan : span.PlacedIn text) :
    Blames text (fun _ => True) (session.coreField id span) := by
  unfold coreField
  split
  · exact .ok trivial
  · exact .fault hspan

theorem blames_treeNode {hierarchy : Hierarchy} (he : e.PlacedIn text) :
    Blames text (Expr.PlacedIn text) (session.treeNode hierarchy e) := by
  refine (blames_constant he).bind fun path _ => .ite (.ok he) ?_
  split
  · exact .ok (.number he.span)
  · exact .fault he.span

theorem blames_storedSides {definition : FieldDefinition} {left : Span} {right : Expr}
    (hleft : left.PlacedIn text) (hright : right.PlacedIn text) :
    Blames text (fun sides => sides.2.PlacedIn text)
      (session.storedSides definition left right) := by
  refine .ite ?_ (.ite ?_ (.ite ?_ (.ok hright)))
  · exact (blames_coreField hleft).bind fun _ _ =>
      (blames_treeNode hright).bind fun _ hnode => .ok hnode
  · exact (blames_coreField hleft).bind fun _ _ =>
      (blames_treeNode hright).bind fun _ hnode => .ok hnode
  · exact (blames_linkTypeId hright).bind fun _ _ => .ok (.number hright.span)

theorem blames_dateElement {right : Expr} (hright : right.PlacedIn text) :
    Blames text (fun _ => True) (session.dateElement right) := by
  refine (blames_constant hright).bind fun literal _ => .ite (.ok trivial) ?_
  exact (blames_instant hright.span).bind fun _ _ => .ok trivial

theorem blames_valueElement {column : FieldDefinition} {right : Expr}
    (hright : right.PlacedIn text) :
    Blames text (fun _ => True) (valueElement column right) := by
  unfold valueElement
  split
  · exact .ok trivial
  · exact .ok trivial
  · exact .ok trivial
  · exact .fault hright.span

theorem blames_operandElement {left : FieldRef} {column : FieldDefinition} {right : Expr}
    (hright : right.PlacedIn text) :
    Blames text (fun _ => True) (session.operandElement left column right) := by
  unfold operandElement
  split
  · cases hright with
    | field _ hother => exact (blames_definition hother).bind fun _ _ => .ok trivial
  · split
    · exact blames_dateElement hright
    · exact (blames_constant hright).bind fun _ _ => .ok trivial
    · exact blames_valueElement hright

theorem blames_conditionElement {op : Comparison} {left : FieldRef} {right : Expr} {span : Span}
    (hspan : span.PlacedIn text) (hleft : left.span.PlacedIn text)
    (hright : right.PlacedIn text) :
    Blames text (fun _ => True) (session.conditionElement polarity op left right span) := by
  refine (blames_definition hleft).bind fun definition _ => ?_
  refine (blames_storedSides hleft hright).bind fun sides hsides => ?_
  dsimp only
  split
  · exact .fault hspan
  · refine .ite ?_ (.ite ?_ ?_)
    · exact (blames_constant hsides).bind fun _ _ => .ok trivial
    · exact (blames_constant hsides).bind fun _ _ => .ok trivial
    · exact (blames_operandElement hsides).bind fun _ _ => .ok trivial

theorem blames_elements {es : List Expr}
    (hes : ∀ e ∈ es, Blames text (fun _ => True) (element session polarity e)) :
    Blames text (fun _ => True) (elements session polarity es) := by
  induction es with
  | nil => exact .ok trivial
  | cons e es ih =>
      rw [elements]
      obtain ⟨hfirst, hothers⟩ := List.forall_mem_cons.mp hes
      exact hfirst.bind fun _ _ => (ih hothers).bind fun _ _ => .ok trivial

theorem blames_element (he : e.PlacedIn text) :
    Blames text (fun _ => True) (element session polarity e) := by
  induction he generalizing polarity with
  | junction hm hoperands ih =>
      rw [element]
      exact (blames_elements fun e he => ih e he).bind fun _ _ => .ok trivial
  | not hm hoperand ih => exact ih
  | ever hm hoperand ih => exact ih
  | truth hm => exact .ok trivial
  | condition hm hleft hright => exact blames_conditionElement hm hleft hright
  | _ => exact .fault (by assumption)

theorem blames_setAsOf {query : Select} {root : Xml.Element} (hquery : query.PlacedIn text) :
    Blames text (fun _ => True) (session.setAsOf query root) := by
  unfold setAsOf
  split
  · exact .ok trivial
  · rename_i moment hmoment
    have hspan := (hquery.asOf moment hmoment).span
    split
    · exact (blames_instant hspan).bind fun _ _ => .ok trivial
    · exact .fault hspan

/-- The table of a query that was resolved is blamed for its mode. -/
theorem incorrectMethod_eq {query : Select} (hquery : BoundIn text query) :
    ∃ span, incorrectMethod query = .located .incorrectQueryMethod span ∧ span.PlacedIn text := by
  obtain ⟨table, htable⟩ := Option.isSome_iff_exists.mp hquery.found
  exact ⟨table.span, by rw [incorrectMethod, htable]; rfl, hquery.table table htable⟩

theorem blames_workItemDocument {query : Select} (hquery : BoundIn text query) :
    Blames text (fun _ => True) (session.workItemDocument query) := by
  obtain ⟨span, herror, hspan⟩ := incorrectMethod_eq hquery
  unfold workItemDocument
  rw [herror]
  refine .ensure_bind hspan ?_
  have hfilter : (query.filter.getD (.truth { span := query.span } true)).PlacedIn text := by
    cases hfilter : query.filter with
    | none => exact .truth hquery.span
    | some filter => exact hquery.filter filter hfilter
  exact (blames_element hfilter).bind fun _ _ => blames_setAsOf hquery.toPlacedIn

theorem blames_addPart {name : String} {operands : List Expr} {root : Xml.Element}
    (hoperands : ∀ e ∈ operands, e.PlacedIn text) :
    Blames text (fun _ => True) (session.addPart name operands root) := by
  refine .ite (.ok trivial) (Blames.bind (P := fun _ => True) ?_ fun _ _ => .ok trivial)
  unfold conjunction
  split
  · exact blames_element (hoperands _ (by simp))
  · exact (blames_elements fun e he => blames_element (hoperands e he)).bind fun _ _ => .ok trivial

structure SidesIn (text : String) (sides : Sides) : Prop where
  source : ∀ e ∈ sides.source, e.PlacedIn text
  link : ∀ e ∈ sides.link, e.PlacedIn text
  target : ∀ e ∈ sides.target, e.PlacedIn text

theorem SidesIn.add {sides : Sides} (hsides : SidesIn text sides) (he : e.PlacedIn text)
    (side : Side) : SidesIn text (sides.add e side) := by
  cases side with
  | source => exact { hsides with source := List.forall_mem_cons.mpr ⟨he, hsides.source⟩ }
  | link => exact { hsides with link := List.forall_mem_cons.mpr ⟨he, hsides.link⟩ }
  | target => exact { hsides with target := List.forall_mem_cons.mpr ⟨he, hsides.target⟩ }

theorem blames_sideOfOperand (he : e.PlacedIn text) :
    Blames text (fun _ => True) (Side.ofOperand e) := by
  unfold Side.ofOperand
  split
  · exact .ok trivial
  · exact .ite (.fault he.span) (.ite (.ok trivial) (.ite (.ok trivial) (.ok trivial)))

theorem blames_sidesOfOperands {operands : List Expr}
    (hoperands : ∀ e ∈ operands, e.PlacedIn text) :
    Blames text (SidesIn text) (Sides.ofOperands operands) := by
  induction operands with
  | nil => exact .ok ⟨nofun, nofun, nofun⟩
  | cons e operands ih =>
      obtain ⟨hfirst, hothers⟩ := List.forall_mem_cons.mp hoperands
      refine (blames_sideOfOperand hfirst).bind fun side _ => ?_
      exact (ih hothers).bind fun sides hsides => .ok (hsides.add hfirst side)

theorem blames_sidesOfFilter {query : Select} (hquery : query.PlacedIn text) :
    Blames text (SidesIn text) (Sides.ofFilter query.filter) := by
  cases hfilter : query.filter with
  | none => exact .ok ⟨nofun, nofun, nofun⟩
  | some filter =>
      refine blames_sidesOfOperands ?_
      have hplaced := hquery.filter filter hfilter
      unfold Expr.conjuncts
      split
      · cases hplaced with
        | junction _ hoperands => exact hoperands
      · simpa using hplaced

theorem blames_conditionLinkTypes {op : Comparison} {left : FieldRef} {right : Expr} {span : Span}
    (hspan : span.PlacedIn text) (hleft : left.span.PlacedIn text)
    (hright : right.PlacedIn text) :
    Blames text (fun _ => True) (session.conditionLinkTypes op left right span) := by
  refine (blames_definition hleft).bind fun definition _ => .ite (.ok trivial) ?_
  refine (blames_linkTypeId hright).bind fun id _ => ?_
  split
  · exact .ok trivial
  · exact .ok trivial
  · exact .fault hspan

theorem blames_commonLinkTypes {es : List Expr}
    (hes : ∀ e ∈ es, Blames text (fun _ => True) (linkTypes session e)) :
    Blames text (fun _ => True) (commonLinkTypes session es) := by
  induction es with
  | nil => exact .ok trivial
  | cons e es ih =>
      rw [commonLinkTypes]
      obtain ⟨hfirst, hothers⟩ := List.forall_mem_cons.mp hes
      exact hfirst.bind fun _ _ => (ih hothers).bind fun _ _ => .ok trivial

theorem blames_linkTypes (he : e.PlacedIn text) :
    Blames text (fun _ => True) (linkTypes session e) := by
  induction he with
  | condition hm hleft hright => exact blames_conditionLinkTypes hm hleft hright
  | @junction m connective operands hm hoperands ih =>
      cases connective with
      | and => exact blames_commonLinkTypes ih
      | or => exact .fault hm
  | not hm hoperand ih => exact ih.bind fun _ _ => .ok trivial
  | _ => exact .fault (by assumption)

theorem blames_recursiveLinkType {operands : List Expr} {span : Span}
    (hspan : span.PlacedIn text) (hoperands : ∀ e ∈ operands, e.PlacedIn text) :
    Blames text (fun _ => True) (session.recursiveLinkType operands span) := by
  refine (blames_commonLinkTypes fun e he => blames_linkTypes (hoperands e he)).bind
    fun types _ => ?_
  split
  · exact .ok trivial
  · exact .fault hspan

theorem blames_linkDocument {query : Select} (hquery : BoundIn text query) :
    Blames text (fun _ => True) (session.linkDocument query) := by
  obtain ⟨span, herror, hspan⟩ := incorrectMethod_eq hquery
  unfold linkDocument
  rw [herror]
  split
  · exact .fault hspan
  · refine (blames_sidesOfFilter hquery.toPlacedIn).bind fun sides hsides => ?_
    refine (blames_addPart hsides.source).bind fun root _ => ?_
    have hend : ∀ root, Blames text (fun _ => True) (do
        let root ← session.addPart "RightQuery" sides.target root
        session.setAsOf query root) := fun root =>
      (blames_addPart hsides.target).bind fun _ _ => blames_setAsOf hquery.toPlacedIn
    refine .ite ?_ ?_
    · exact (blames_recursiveLinkType hquery.span hsides.link).bind fun _ _ => hend _
    · exact (blames_addPart hsides.link).bind fun _ _ => hend _

theorem blames_document {query : Select} (hquery : BoundIn text query) :
    Blames text (fun _ => True) (session.document query) :=
  .ite (blames_linkDocument hquery) (blames_workItemDocument hquery)

end Documents

/-- Every stage after reading blames places of the text. -/
theorem blames_compile {query : Select} (hparse : Select.parse text = .ok query) :
    Blames text (fun _ => True) (session.compile text) := by
  have hbind : Blames text (BoundIn text) (session.bind query) :=
    blames_bind (Select.placedIn_of_parse hparse)
  have hresolve : Blames text (fun _ => True) (session.resolve query) := by
    rw [Session.bind, Select.bind, StateT.run'_eq] at hbind
    unfold resolve
    cases hread : (query.resolve session.schema).run [] with
    | ok read => exact .ok trivial
    | error error =>
        rw [hread] at hbind
        cases hbind with
        | fault hspan => exact .fault hspan
        | other herror => exact .other herror
  unfold compile optimize
  rw [hparse]
  refine .ite ?_ ?_
  · exact hresolve.bind fun _ _ => .ok trivial
  · refine (hbind.bind fun _ => blames_simplifyQuery).bind fun simplified hsimplified => ?_
    exact (blames_document hsimplified).bind fun _ _ => .ok trivial

/-- A query that cannot be read cannot be compiled, for the same reason. -/
theorem compile_eq_error {error : Error} (hparse : Select.parse text = .error error) :
    session.compile text = .error error := by
  unfold compile optimize
  rw [hparse]
  split <;> rfl

end Session

/-- A text that cannot be read is blamed at a place in it, or at its end if reading used up
all tokens: then a stray token behind them is blamed. -/
theorem Select.parse_eq_error {text : String} {cause : Fault} {place : Option Span}
    (hparse : parse text = .error (.fault cause place)) :
    (∃ span, place = some span ∧ span.PlacedIn text) ∨
      (place = none ∧ ∃ ts, tokens text = .ok ts ∧ ofTokens ts = .error (.fault cause none) ∧
        ∀ t more, t.Stray →
          ofTokens (ts ++ t :: more) = .error (.fault cause (some t.span))) := by
  cases htokens : tokens text with
  | error error =>
      rw [parse, htokens] at hparse
      cases hparse
      exact .inl (placedIn_of_tokens_eq_error htokens)
  | ok ts =>
      rw [parse, htokens] at hparse
      obtain ⟨s, hs⟩ := Token.exists_stray
      obtain ⟨cause', rest, hrest, heq, -⟩ := fails_ofTokens ts hs [] _ hparse
      cases rest with
      | nil =>
          cases heq
          refine .inr ⟨rfl, ts, rfl, hparse, fun t more ht => ?_⟩
          obtain ⟨_, rest, -, heq, hend⟩ := fails_ofTokens ts ht more _ hparse
          obtain ⟨rfl, hrest⟩ := Error.fault.inj heq
          exact hend (List.head?_eq_none_iff.mp (Option.map_eq_none_iff.mp hrest.symm))
      | cons t rest =>
          cases heq
          have hmem : t ∈ ts := hrest.subset List.mem_cons_self
          exact .inl ⟨t.span, rfl, (placedIn_of_tokens htokens t hmem).span⟩

theorem Blames.placedIn {text : String} {α : Type} {P : α → Prop} {cause : Fault}
    {place : Option Span} (h : Blames text P (.error (.fault cause place))) :
    ∃ span, place = some span ∧ span.PlacedIn text := by
  cases h with
  | fault hspan => exact ⟨_, rfl, hspan⟩
  | other herror => cases herror

def failure? {α : Type} : Except Error α → Option Error
  | .ok _ => none
  | .error error => some error

theorem failure?_eq_some_iff {α : Type} {x : Except Error α} {error : Error} :
    failure? x = some error ↔ x = .error error := by
  cases x <;> simp [failure?]

namespace Compiler

/-- Whatever stage refuses a query, it points to some characters of the query.  Only reading
may give no place, and only at the end of the tokens: with a token behind them that no rule
takes, it stops for the same reason at this token. -/
theorem fault_points_into_text {compiler : Compiler} {text : String} {cause : Fault}
    {place : Option Span} (hcompile : compiler.compile text = .error (.fault cause place)) :
    (∃ span, place = some span ∧ span.PlacedIn text) ∨
      (place = none ∧ ∃ ts, tokens text = .ok ts ∧
        Select.ofTokens ts = .error (.fault cause none) ∧
        ∀ t more, t.Stray →
          Select.ofTokens (ts ++ t :: more) = .error (.fault cause (some t.span))) := by
  unfold compile at hcompile
  cases hsession : compiler.session with
  | error error =>
      have hzone : Blames text (fun _ => True) compiler.session := by
        refine Blames.bind (P := fun _ => True) ?_ fun _ _ => .ok trivial
        unfold Settings.zone
        split
        · exact .ok trivial
        · exact .other rfl
      rw [hsession] at hcompile hzone
      cases hcompile
      exact .inl hzone.placedIn
  | ok session =>
      rw [hsession] at hcompile
      change session.compile text = _ at hcompile
      cases hparse : Select.parse text with
      | error error =>
          rw [Session.compile_eq_error hparse] at hcompile
          cases hcompile
          exact Select.parse_eq_error hparse
      | ok query =>
          have hblames : Blames text (fun _ => True) (session.compile text) :=
            Session.blames_compile hparse
          rw [hcompile] at hblames
          exact .inl hblames.placedIn

/-- The place of a macro is blamed for the area that its value does not name, and the end of
the query or a semicolon there for a table that is missing. -/
theorem fault_points_into_text_project :
    let compiler : Compiler := { context := [("p", .string "Nowhere")] }
    let text := "select [System.Id] from WorkItems where [System.Title] <> 'é' " ++
      "and [System.TeamProject] = @p"
    let short := "select [System.Id] from"
    let semicolon : Token := ⟨.operation, ";", ⟨24, 25⟩⟩
    (compiler.compile text = .error (.fault .treePathIsNotFoundInHierarchy (some ⟨90, 92⟩)) ∧
      Span.PlacedIn text ⟨90, 92⟩) ∧
    compiler.compile short = .error (.fault .expectingTableName none) ∧
      ∃ ts, tokens short = .ok ts ∧
        Select.ofTokens (ts ++ [semicolon]) =
          .error (.fault .expectingTableName (some semicolon.span)) := by
  intro compiler text short semicolon
  have hcompile : compiler.compile text =
      .error (.fault .treePathIsNotFoundInHierarchy (some ⟨90, 92⟩)) :=
    failure?_eq_some_iff.mp (by decide +kernel)
  have hshort : compiler.compile short = .error (.fault .expectingTableName none) :=
    failure?_eq_some_iff.mp (by decide +kernel)
  have hsemicolon : semicolon.Stray := ⟨rfl, by decide, by decide, by decide⟩
  constructor
  · obtain ⟨span, hspan, hplaced⟩ | ⟨hnone, -⟩ := fault_points_into_text hcompile
    · cases hspan
      exact ⟨hcompile, hplaced⟩
    · cases hnone
  · obtain ⟨span, hspan, -⟩ | ⟨-, ts, htokens, -, hstray⟩ := fault_points_into_text hshort
    · cases hspan
    · exact ⟨hshort, ts, htokens, hstray semicolon [] hsemicolon⟩

end Compiler

end TrackerQuery

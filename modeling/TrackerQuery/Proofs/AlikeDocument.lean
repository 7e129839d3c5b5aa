import TrackerQuery.Proofs.AlikeSimplified
import TrackerQuery.Proofs.Stages

/-!
# The document of alike queries

A document names a field by its definition, so queries that say the same of the same
fields have one document, and with what was shown of resolving and simplifying, alike
queries are compiled alike.
-/

namespace TrackerQuery

namespace Session

open Xml (Element)

variable {session : Session} {e e' right right' : Expr} {left left' : FieldRef}
variable {definition column : FieldDefinition}

/-! ## Conditions -/

theorem agree_constant (h : e.Same session.catalog e') : Agree Eq (constant e) (constant e') := by
  unfold constant
  rw [h.literal?_eq]
  cases e'.literal? with
  | none => exact .located ..
  | some text => exact .ok rfl

theorem agree_coreField (id : Int) (span span' : Span) :
    Agree Eq (session.coreField id span) (session.coreField id span') := by
  unfold coreField
  cases session.catalog.fieldById? id with
  | none => exact .located ..
  | some definition => exact .ok rfl

theorem agree_linkTypeId (h : e.Same session.catalog e') :
    Agree Eq (session.linkTypeId e) (session.linkTypeId e') := by
  unfold linkTypeId
  rw [h.literal?_eq]
  cases e'.literal?.bind session.catalog.linkTypeEnd? with
  | none => exact .located ..
  | some linkEnd => exact .ok rfl

theorem agree_treeNode (hierarchy : Hierarchy) (h : e.Same session.catalog e') :
    Agree (Expr.Same session.catalog) (session.treeNode hierarchy e)
      (session.treeNode hierarchy e') := by
  refine (agree_constant h).bind_eq fun text => .ite (fun _ => .ok h) fun _ => ?_
  cases session.catalog.treeId? hierarchy text with
  | none => exact .located ..
  | some id => exact .ok .number

theorem agree_storedSides (span span' : Span) (h : right.Same session.catalog right') :
    Agree (fun sides sides' => sides.1 = sides'.1 ∧ sides.2.Same session.catalog sides'.2)
      (session.storedSides definition span right)
      (session.storedSides definition span' right') := by
  unfold storedSides
  refine .ite (fun _ => ?_) fun _ => .ite (fun _ => ?_) fun _ => .ite (fun _ => ?_) fun _ => ?_
  · refine (agree_coreField _ span span').bind_eq fun column => ?_
    exact (agree_treeNode _ h).bind fun _ _ hnode => .ok ⟨rfl, hnode⟩
  · refine (agree_coreField _ span span').bind_eq fun column => ?_
    exact (agree_treeNode _ h).bind fun _ _ hnode => .ok ⟨rfl, hnode⟩
  · exact (agree_linkTypeId h).bind_eq fun _ => .ok ⟨rfl, .number⟩
  · exact .ok ⟨rfl, h⟩

theorem agree_dateElement (h : right.Same session.catalog right') :
    Agree Eq (session.dateElement right) (session.dateElement right') := by
  refine (agree_constant h).bind_eq fun text => .ite (fun _ => .refl _) fun _ => ?_
  exact (agree_instant text right.span right'.span).bind_eq fun _ => .refl _

theorem agree_valueElement (h : right.Same session.catalog right') :
    Agree Eq (valueElement column right) (valueElement column right') := by
  cases h with
  | string | number | boolean => exact .refl _
  | _ => exact .located ..

theorem agree_operandElement (hleft : left.Same session.catalog left')
    (hright : right.Same session.catalog right') :
    Agree Eq (session.operandElement left column right)
      (session.operandElement left' column right') := by
  have hdate := agree_dateElement hright
  have hconstant := agree_constant hright
  have hvalue : Agree Eq (valueElement column right) (valueElement column right') :=
    agree_valueElement hright
  unfold operandElement
  rw [hleft.type]
  generalize left'.type = type
  cases hright with
  | field hother => exact (agree_definition hother.id).bind_eq fun _ => .refl _
  | _ =>
      cases type with
      | date => exact hdate
      | guid => exact hconstant.bind_eq fun _ => .refl _
      | _ => exact hvalue

/-- Conditions on the same field become the same element. -/
theorem agree_conditionElement (polarity : Polarity) (op : Comparison) (span span' : Span)
    (hleft : left.Same session.catalog left') (hright : right.Same session.catalog right') :
    Agree Eq (session.conditionElement polarity op left right span)
      (session.conditionElement polarity op left' right' span') := by
  refine (agree_definition hleft.id).bind_eq fun definition => ?_
  refine (agree_storedSides left.span left'.span hright).bind ?_
  rintro ⟨column, right⟩ ⟨-, right'⟩ ⟨rfl, hright⟩
  dsimp only
  cases op.documentOperator polarity.negated
    (polarity.ever || (op.isSearch && column.id == CoreField.history)) with
  | none => exact .located ..
  | some operator =>
      refine .ite (fun _ => ?_) fun _ => .ite (fun _ => ?_) fun _ => ?_
      · exact (agree_constant hright).bind_eq fun _ => .refl _
      · exact (agree_constant hright).bind_eq fun _ => .refl _
      · exact (agree_operandElement hleft hright).bind_eq fun _ => .refl _

theorem agree_elements {polarity : Polarity} {es es' : List Expr}
    (h : List.Forall₂ (fun e e' => Agree Eq (session.element polarity e)
      (session.element polarity e')) es es') :
    Agree Eq (session.elements polarity es) (session.elements polarity es') := by
  induction h with
  | nil => exact .refl _
  | cons hfirst _ ih =>
      rw [elements, elements]
      exact hfirst.bind_eq fun _ => ih.bind_eq fun _ => .refl _

theorem agree_element (polarity : Polarity) (h : Expr.Alike (FieldRef.Same session.catalog) e e') :
    Agree Eq (session.element polarity e) (session.element polarity e') := by
  induction h generalizing polarity with
  | junction hoperands ih =>
      rw [element, element]
      have hparts := (Expr.forall₂_of_exists_alike ih).imp fun _ _ h => h polarity
      exact (agree_elements hparts).bind_eq fun _ => .refl _
  | not hoperand ih => exact ih _
  | ever hoperand ih => exact ih _
  | truth => exact .refl _
  | condition hleft hright => exact agree_conditionElement polarity _ _ _ hleft hright
  | _ => exact .located ..

/-! ## Links -/

theorem qualifiersOfAll_eq {es es' : List Expr}
    (h : List.Forall₂ (fun e e' => e.qualifiers = e'.qualifiers) es es') :
    Expr.qualifiersOfAll es = Expr.qualifiersOfAll es' := by
  induction h with
  | nil => rfl
  | cons hfirst _ ih => rw [Expr.qualifiersOfAll, Expr.qualifiersOfAll, hfirst, ih]

theorem qualifiers_eq (h : Expr.Alike (FieldRef.Same session.catalog) e e') :
    e.qualifiers = e'.qualifiers := by
  induction h with
  | field hfield => rw [Expr.qualifiers, Expr.qualifiers, hfield.qualifierText_eq]
  | condition hleft _ ih => rw [Expr.qualifiers, Expr.qualifiers, hleft.qualifierText_eq, ih]
  | list _ ih => exact qualifiersOfAll_eq (Expr.forall₂_of_exists_alike ih)
  | junction _ ih => exact qualifiersOfAll_eq (Expr.forall₂_of_exists_alike ih)
  | arithmetic _ _ ihleft ihright => rw [Expr.qualifiers, Expr.qualifiers, ihleft, ihright]
  | not _ ih | ever _ ih => exact ih
  | _ => rfl

structure SameSides (session : Session) (sides sides' : Sides) : Prop where
  source : List.Forall₂ (Expr.Same session.catalog) sides.source sides'.source
  link : List.Forall₂ (Expr.Same session.catalog) sides.link sides'.link
  target : List.Forall₂ (Expr.Same session.catalog) sides.target sides'.target

theorem agree_sideOfOperand (h : e.Same session.catalog e') :
    Agree Eq (Side.ofOperand e) (Side.ofOperand e') := by
  unfold Side.ofOperand
  rw [qualifiers_eq h]
  cases e'.qualifiers with
  | nil => exact .refl _
  | cons qualifier others => exact .ite (fun _ => .located ..) fun _ => .refl _

theorem agree_ofOperands {es es' : List Expr}
    (h : List.Forall₂ (Expr.Same session.catalog) es es') :
    Agree session.SameSides (Sides.ofOperands es) (Sides.ofOperands es') := by
  induction h with
  | nil => exact .ok ⟨.nil, .nil, .nil⟩
  | cons hfirst _ ih =>
      rw [Sides.ofOperands, Sides.ofOperands]
      refine (agree_sideOfOperand hfirst).bind_eq fun side => ih.bind fun sides sides' h => .ok ?_
      cases side with
      | source => exact ⟨.cons hfirst h.source, h.link, h.target⟩
      | link => exact ⟨h.source, .cons hfirst h.link, h.target⟩
      | target => exact ⟨h.source, h.link, .cons hfirst h.target⟩

theorem same_conjuncts (h : e.Same session.catalog e') :
    List.Forall₂ (Expr.Same session.catalog) e.conjuncts e'.conjuncts := by
  have hone : List.Forall₂ (Expr.Same session.catalog) [e] [e'] := .cons h .nil
  cases h with
  | @junction m m' connective operands operands' hoperands =>
      cases connective with
      | and => exact hoperands
      | or => exact hone
  | _ => exact hone

theorem agree_ofFilter {filter filter' : Option Expr}
    (h : Option.Rel (Expr.Same session.catalog) filter filter') :
    Agree session.SameSides (Sides.ofFilter filter) (Sides.ofFilter filter') := by
  cases h with
  | none => exact .ok ⟨.nil, .nil, .nil⟩
  | some h => exact agree_ofOperands (same_conjuncts h)

theorem agree_conditionLinkTypes (op : Comparison) (span span' : Span)
    (hleft : left.Same session.catalog left') (hright : right.Same session.catalog right') :
    Agree Eq (session.conditionLinkTypes op left right span)
      (session.conditionLinkTypes op left' right' span') := by
  refine (agree_definition hleft.id).bind_eq fun definition => .ite (fun _ => .refl _) fun _ => ?_
  refine (agree_linkTypeId hright).bind_eq fun id => ?_
  cases op with
  | equals | notEquals => exact .refl _
  | _ => exact .located ..

theorem agree_commonLinkTypes {es es' : List Expr}
    (h : List.Forall₂ (fun e e' => Agree Eq (session.linkTypes e) (session.linkTypes e')) es es') :
    Agree Eq (session.commonLinkTypes es) (session.commonLinkTypes es') := by
  induction h with
  | nil => exact .refl _
  | cons hfirst _ ih =>
      rw [commonLinkTypes, commonLinkTypes]
      exact hfirst.bind_eq fun _ => ih.bind_eq fun _ => .refl _

theorem agree_linkTypes (h : Expr.Alike (FieldRef.Same session.catalog) e e') :
    Agree Eq (session.linkTypes e) (session.linkTypes e') := by
  induction h with
  | condition hleft hright => exact agree_conditionLinkTypes _ _ _ hleft hright
  | @junction m m' connective operands operands' hoperands ih =>
      cases connective with
      | and => exact agree_commonLinkTypes (Expr.forall₂_of_exists_alike ih)
      | or => exact .located ..
  | not _ ih =>
      rw [linkTypes, linkTypes]
      exact ih.bind_eq fun _ => .refl _
  | _ => exact .located ..

theorem agree_recursiveLinkType {es es' : List Expr} (span span' : Span)
    (h : List.Forall₂ (Expr.Same session.catalog) es es') :
    Agree Eq (session.recursiveLinkType es span) (session.recursiveLinkType es' span') := by
  refine (agree_commonLinkTypes (h.imp fun _ _ => agree_linkTypes)).bind_eq fun types => ?_
  split
  · exact .refl _
  · exact .located ..

/-! ## Documents -/

theorem agree_conjunction {es es' : List Expr}
    (h : List.Forall₂ (Expr.Same session.catalog) es es') :
    Agree Eq (session.conjunction es) (session.conjunction es') := by
  have hgroup : Agree Eq (session.elements {} es) (session.elements {} es') :=
    agree_elements (h.imp fun _ _ => agree_element {})
  cases h with
  | nil => exact .refl _
  | cons hfirst hothers =>
      cases hothers with
      | nil => exact agree_element {} hfirst
      | cons _ _ => exact hgroup.bind_eq fun _ => .refl _

theorem agree_addPart (name : String) (root : Element) {es es' : List Expr}
    (h : List.Forall₂ (Expr.Same session.catalog) es es') :
    Agree Eq (session.addPart name es root) (session.addPart name es' root) := by
  have hconjunction := agree_conjunction h
  cases h with
  | nil => exact .refl _
  | cons _ _ => exact hconjunction.bind_eq fun _ => .refl _

variable {query query' : Select}

theorem agree_setAsOf (h : query.Alike (FieldRef.Same session.catalog) query') (root : Element) :
    Agree Eq (session.setAsOf query root) (session.setAsOf query' root) := by
  have hasOf := h.asOf
  unfold setAsOf
  generalize query.asOf = asOf at hasOf ⊢
  generalize query'.asOf = asOf' at hasOf ⊢
  cases hasOf with
  | none => exact .refl _
  | @some moment moment' hmoment =>
      dsimp only
      rw [hmoment.literal?_eq]
      cases moment'.literal? with
      | none => exact .located ..
      | some text => exact (agree_instant text _ _).bind_eq fun _ => .refl _

theorem agree_workItemDocument (h : query.Alike (FieldRef.Same session.catalog) query') :
    Agree Eq (session.workItemDocument query) (session.workItemDocument query') := by
  have hfilter : (query.filter.getD (.truth { span := query.span } true)).Same session.catalog
      (query'.filter.getD (.truth { span := query'.span } true)) := by
    have hfilter := h.filter
    generalize query.filter = filter at hfilter ⊢
    generalize query'.filter = filter' at hfilter ⊢
    cases hfilter with
    | none => exact .truth
    | some hfilter => exact hfilter
  unfold workItemDocument
  rw [h.mode_eq]
  refine Follows.bind_eq ?_ fun _ => ?_
  · cases query'.mode == .workItems with
    | true => exact .ok rfl
    | false => exact .error rfl
  · exact (agree_element {} hfilter).bind_eq fun _ => agree_setAsOf h _

/-- Link queries that say the same have the same document. -/
theorem agree_linkDocument (h : query.Alike (FieldRef.Same session.catalog) query') :
    Agree Eq (session.linkDocument query) (session.linkDocument query') := by
  unfold linkDocument
  rw [h.mode_eq]
  cases linkQueryType? query'.mode with
  | none => exact .error rfl
  | some type =>
      refine (agree_ofFilter h.filter).bind fun sides sides' hsides => ?_
      refine (agree_addPart _ _ hsides.source).bind_eq fun root => ?_
      have hrest : ∀ root, Agree Eq
          (do
            let root ← session.addPart "RightQuery" sides.target root
            session.setAsOf query root)
          (do
            let root ← session.addPart "RightQuery" sides'.target root
            session.setAsOf query' root) :=
        fun root => (agree_addPart _ root hsides.target).bind_eq (agree_setAsOf h)
      refine .ite (fun _ => ?_) fun _ => ?_
      · exact (agree_recursiveLinkType query.span query'.span hsides.link).bind_eq fun _ => hrest _
      · exact (agree_addPart _ root hsides.link).bind_eq hrest

theorem agree_document (h : query.Alike (FieldRef.Same session.catalog) query') :
    Agree Eq (session.document query) (session.document query') := by
  unfold document Select.isLinkQuery
  rw [h.mode_eq]
  exact .ite (fun _ => agree_linkDocument h) fun _ => agree_workItemDocument h

/-! ## Columns and order -/

theorem filterMap_eq {α : Type} {f : FieldRef → Option α} {fields fields' : List FieldRef}
    (h : List.Forall₂ (fun field field' => f field = f field') fields fields') :
    fields.filterMap f = fields'.filterMap f := by
  induction h with
  | nil => rfl
  | cons hfirst _ ih => rw [List.filterMap_cons, List.filterMap_cons, hfirst, ih]

theorem definition?_eq (h : left.Same session.catalog left') :
    session.definition? left = session.definition? left' := by
  rw [definition?, definition?, h.id]

theorem displayFields_eq (h : query.Alike (FieldRef.Same session.catalog) query') :
    session.displayFields query = session.displayFields query' := by
  have hcolumns := h.columns
  unfold displayFields Select.isLinkQuery
  rw [h.mode_eq]
  generalize query.columns = columns at hcolumns ⊢
  generalize query'.columns = columns' at hcolumns ⊢
  cases hcolumns with
  | none => rfl
  | some hlist =>
      exact congrArg _ (filterMap_eq (hlist.fields.imp fun _ _ => definition?_eq))

theorem sortFields_eq (h : query.Alike (FieldRef.Same session.catalog) query') :
    session.sortFields query = session.sortFields query' := by
  have hordering := h.ordering
  unfold sortFields
  generalize query.ordering = ordering at hordering ⊢
  generalize query'.ordering = ordering' at hordering ⊢
  cases hordering with
  | none => rfl
  | some hlist =>
      refine filterMap_eq (hlist.fields.imp fun _ _ hfield => ?_)
      rw [definition?_eq hfield, hfield.direction]

/-! ## Compiling -/

theorem agree_optimize {text text' : String} (hquery : Select.parse text = .ok query)
    (hquery' : Select.parse text' = .ok query')
    (h : query.Alike (FieldRef.Alike session.catalog) query') :
    Agree (Select.Alike (FieldRef.Same session.catalog)) (session.optimize text)
      (session.optimize text') := by
  unfold optimize
  rw [hquery, hquery']
  exact (agree_bindQuery (FieldRef.carried_same _) h).bind fun _ _ =>
    agree_simplifyQuery (FieldRef.carried_same _)

end Session

/-- Compiled queries that ask the server for the same and show the same of it. -/
structure Compiled.Same (a b : Compiled) : Prop where
  document : a.document = b.document
  displayFields : a.displayFields = b.displayFields
  sortFields : a.sortFields = b.sortFields

theorem Session.agree_compile {session : Session} {text text' : String} {query query' : Select}
    (hmacros : session.settings.serverSideMacros = false) (hquery : Select.parse text = .ok query)
    (hquery' : Select.parse text' = .ok query')
    (h : query.Alike (FieldRef.Alike session.catalog) query') :
    Agree Compiled.Same (session.compile text) (session.compile text') := by
  rw [compile_eq hmacros, compile_eq hmacros]
  refine (agree_optimize hquery hquery' h).bind fun query query' h => ?_
  exact (agree_document h).bind_eq fun document =>
    .ok ⟨rfl, displayFields_eq h, sortFields_eq h⟩

namespace Compiler

theorem agree_compile {compiler : Compiler} {text text' : String} {query query' : Select}
    (hmacros : compiler.settings.serverSideMacros = false) (hquery : Select.parse text = .ok query)
    (hquery' : Select.parse text' = .ok query')
    (h : query.Alike (FieldRef.Alike compiler.catalog) query') :
    Agree Compiled.Same (compiler.compile text) (compiler.compile text') := by
  unfold compile
  cases hsession : compiler.session with
  | error e => exact .error rfl
  | ok session =>
      obtain ⟨hcatalog, hsettings⟩ := session_eq_ok hsession
      exact Session.agree_compile (hsettings ▸ hmacros) hquery hquery' (hcatalog ▸ h)

/-- Alike queries are compiled to the same document, columns and order, or refused for
the same reason. -/
theorem compile_of_alike {compiler : Compiler} {text text' : String} {query query' : Select}
    (hmacros : compiler.settings.serverSideMacros = false) (hquery : Select.parse text = .ok query)
    (hquery' : Select.parse text' = .ok query')
    (h : query.Alike (FieldRef.Alike compiler.catalog) query') :
    (∃ compiled compiled', compiler.compile text = .ok compiled ∧
      compiler.compile text' = .ok compiled' ∧ compiled.Same compiled') ∨
    ∃ error error', compiler.compile text = .error error ∧
      compiler.compile text' = .error error' ∧ error.kind = error'.kind :=
  (agree_compile hmacros hquery hquery' h).ok_or_error

/-- The same links, asked for by reference names and by friendly ones. -/
theorem compile_of_alike_links :
    ∃ query query' compiled compiled',
      let compiler : Compiler := {}
      let text := "select [Title] from WorkItemLinks where [Source].[Title] <> @me " ++
        "order by [System.Title] desc mode (MayContain)"
      let text' := "select System.Title from links where ([SOURCE].[System.Title] <> @me) " ++
        "order by [title] desc mode (maycontain)"
      Select.parse text = .ok query ∧ Select.parse text' = .ok query' ∧
      query.Alike (FieldRef.Alike compiler.catalog) query' ∧
      compiler.compile text = .ok compiled ∧ compiler.compile text' = .ok compiled' ∧
      compiled.Same compiled' := by
  let compiler : Compiler := {}
  let text := "select [Title] from WorkItemLinks where [Source].[Title] <> @me " ++
    "order by [System.Title] desc mode (MayContain)"
  let text' := "select System.Title from links where ([SOURCE].[System.Title] <> @me) " ++
    "order by [title] desc mode (maycontain)"
  have hparse : (do
      let query ← (Select.parse text).toOption
      let query' ← (Select.parse text').toOption
      guard (query.Alike (FieldRef.Alike compiler.catalog) query')).isSome = true := by
    decide +kernel
  have hmacros : compiler.settings.serverSideMacros = false := rfl
  have hcompile : (compiler.compile text).toOption.isSome = true := by decide +kernel
  obtain ⟨_, hqueries⟩ := Option.isSome_iff_exists.mp hparse
  obtain ⟨query, hquery, hqueries⟩ := toOption_bind_eq_some_iff.mp hqueries
  obtain ⟨query', hquery', hqueries⟩ := toOption_bind_eq_some_iff.mp hqueries
  have h := guard_eq_some_iff.mp hqueries
  obtain ⟨compiled, hcompiled⟩ := Option.isSome_iff_exists.mp hcompile
  have hcompiled := toOption_eq_some_iff.mp hcompiled
  obtain ⟨found, compiled', hfound, hcompiled', hsame⟩ | ⟨error, error', herror, -, -⟩ :=
    compile_of_alike hmacros hquery hquery' h
  · cases hcompiled.symm.trans hfound
    exact ⟨query, query', compiled, compiled', hquery, hquery', h, hcompiled, hcompiled', hsame⟩
  · cases hcompiled.symm.trans herror

end Compiler

end TrackerQuery

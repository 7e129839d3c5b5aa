import TrackerQuery.Proofs.EverOperand
import TrackerQuery.Proofs.Stages

/-!
# The truth of a document

A document has no element for `not` and `ever`: they choose the operators of
the conditions below them.  Under every reading of the `Expression` elements
that treats paired operators as opposites, the document of a filter has the
truth value of the filter itself.
-/

namespace TrackerQuery

namespace Xml.Element

mutual

/-- The truth value of groups and expressions, given that of the
expressions. -/
def truth? (reading : Element → Bool) : Element → Option Bool
  | ⟨name, attributes, children, text⟩ =>
      if name = "Expression" then some (reading ⟨name, attributes, children, text⟩)
      else if name = "Group" then
        if attributes.lookup "GroupOperator" = some "and" then
          (truths? reading children).map fun values => values.all id
        else if attributes.lookup "GroupOperator" = some "or" then
          (truths? reading children).map fun values => values.any id
        else none
      else none

def truths? (reading : Element → Bool) : List Element → Option (List Bool)
  | [] => some []
  | e :: es => (truth? reading e).bind fun value => (truths? reading es).map (value :: ·)

end

/-- Pairs of document operators of which one denies what the other says. -/
def opposites : List (String × String) :=
  [("equals", "notEquals"), ("less", "equalsGreater"), ("greater", "equalsLess"),
   ("under", "notUnder"), ("contains", "notContains"), ("containsWords", "notContainsWords"),
   ("everContains", "neverContains"), ("everContainsWords", "neverContainsWords")]

def idIsZero : Element :=
  { name := "Expression"
    attributes := [("Column", "System.Id"), ("Operator", "equals")]
    children := [.ofText "Number" "0"] }

/-- A reading takes expressions that differ in opposite operators alone for
opposites.  Membership in a group has its own spelling of the negation. -/
structure Consistent (reading : Element → Bool) : Prop where
  opposite : ∀ e : Element, e.name = "Expression" → e.attribute? "ExpandConstant" = none →
    ∀ pair ∈ opposites, reading (e.set "Operator" pair.2) = !reading (e.set "Operator" pair.1)
  group : ∀ e : Element, e.name = "Expression" → e.attribute? "ExpandConstant" = some "true" →
    reading (e.set "Operator" "notequals") = !reading (e.set "Operator" "equals")
  idIsNotZero : reading idIsZero = false

/-- The reading in which what a condition says is false and what it denies is
true. -/
def denials (e : Element) : Bool :=
  ("notequals" :: opposites.map Prod.snd).contains ((e.attribute? "Operator").getD "")

theorem lookup_assign (name value : String) (attributes : List (String × String)) :
    (assign name value attributes).lookup name = some value := by
  induction attributes with
  | nil => simp [assign]
  | cons entry rest ih =>
      rw [assign]
      split
      · simp
      · rename_i hentry
        have hother : (name == entry.1) = false := by
          rw [Bool.eq_false_iff]
          intro hsame
          exact hentry (by rw [beq_iff_eq.mp hsame, beq_self_eq_true])
        rw [List.lookup_cons, hother]
        exact ih

theorem denials_set (e : Element) (operator : String) :
    denials (e.set "Operator" operator) =
      ("notequals" :: opposites.map Prod.snd).contains operator := by
  rw [denials, attribute?, set, lookup_assign, Option.getD_some]

theorem consistent_denials : Consistent denials where
  opposite := by
    intro e _ _ pair hpair
    rw [denials_set, denials_set]
    revert hpair
    exact (by decide : ∀ pair ∈ opposites, ("notequals" :: opposites.map Prod.snd).contains pair.2 =
      !("notequals" :: opposites.map Prod.snd).contains pair.1) pair
  group := by
    intro e _ _
    rw [denials_set, denials_set]
    decide
  idIsNotZero := by decide

end Xml.Element

namespace Session

open Xml (Element)

mutual

/-- The truth value of a filter as a boolean formula.  A condition is as true
as the expression it is written as without negation, and an `ever` above it
makes that expression range over all revisions. -/
def verdict? (session : Session) (reading : Element → Bool) (ever : Bool) : Expr → Option Bool
  | .truth _ value => some value
  | .condition m op left right =>
      (session.conditionElement ⟨false, ever⟩ op left right m.span).toOption.map reading
  | .junction _ .and operands =>
      (verdicts? session reading ever operands).map fun values => values.all id
  | .junction _ .or operands =>
      (verdicts? session reading ever operands).map fun values => values.any id
  | .not _ operand => (verdict? session reading ever operand).map (!·)
  | .ever _ operand => verdict? session reading true operand
  | _ => none
termination_by structural e => e

def verdicts? (session : Session) (reading : Element → Bool) (ever : Bool) :
    List Expr → Option (List Bool)
  | [] => some []
  | e :: es =>
      (verdict? session reading ever e).bind fun value =>
        (verdicts? session reading ever es).map (value :: ·)
termination_by structural es => es

end

/-! ## Conditions -/

def conditionChild (session : Session) (op : Comparison) (left : FieldRef)
    (column : FieldDefinition) (right : Expr) : Except Error Element :=
  if op.isSearch ∨ op = .inGroup then (constant right).map (Element.ofText "String")
  else session.operandElement left column right

def conditionFrame (op : Comparison) (definition column : FieldDefinition) (child : Element)
    (operator : String) : Element :=
  { name := "Expression"
    attributes := [("Column", column.referenceName),
        ("FieldType", toString definition.type.code), ("Operator", operator)] ++
      if op = .inGroup then [("ExpandConstant", "true")] else []
    children := [child] }

/-- The polarity of a condition shows in its operator only. -/
theorem conditionElement_eq (session : Session) (polarity : Polarity) (op : Comparison)
    (left : FieldRef) (right : Expr) (span : Span) :
    session.conditionElement polarity op left right span = (do
      let definition ← session.definition left
      let (column, stored) ← session.storedSides definition left.span right
      match op.documentOperator polarity.negated
          (polarity.ever || (op.isSearch && column.id == CoreField.history)) with
      | none => .error (.located .invalidConditionalOperator span)
      | some operator =>
          (session.conditionChild op left column stored).map fun child =>
            conditionFrame op definition column child operator) := by
  unfold conditionElement
  refine bind_congr fun definition => bind_congr fun (column, stored) => ?_
  dsimp only
  generalize op.documentOperator _ _ = found
  cases found with
  | none => rfl
  | some operator =>
      unfold conditionChild conditionFrame
      by_cases hsearch : op.isSearch = true
      · have hgroup : op ≠ .inGroup := by
          rintro rfl
          cases hsearch
        simp only [hsearch, hgroup, if_true, if_false, true_or, List.append_nil]
        cases constant stored <;> rfl
      · by_cases hgroup : op = .inGroup
        · simp only [hgroup, if_true, or_true]
          cases constant stored <;> rfl
        · simp only [hsearch, hgroup, if_false, List.append_nil]
          cases session.operandElement left column stored <;> rfl

/-- The element of a condition, step by step. -/
theorem conditionElement_eq_ok_iff {session : Session} {polarity : Polarity} {op : Comparison}
    {left : FieldRef} {right : Expr} {span : Span} {x : Element} :
    session.conditionElement polarity op left right span = .ok x ↔
      ∃ definition column stored child operator,
        session.definition left = .ok definition ∧
        session.storedSides definition left.span right = .ok (column, stored) ∧
        session.conditionChild op left column stored = .ok child ∧
        op.documentOperator polarity.negated
          (polarity.ever || (op.isSearch && column.id == CoreField.history)) = some operator ∧
        conditionFrame op definition column child operator = x := by
  rw [conditionElement_eq]
  constructor
  · intro helement
    obtain ⟨definition, hdefinition, helement⟩ := bind_eq_ok_iff.mp helement
    obtain ⟨⟨column, stored⟩, hstored, helement⟩ := bind_eq_ok_iff.mp helement
    dsimp only at helement
    split at helement
    · cases helement
    · rename_i operator hoperator
      obtain ⟨child, hchild, hx⟩ := map_eq_ok_iff.mp helement
      exact ⟨definition, column, stored, child, operator, hdefinition, hstored, hchild,
        hoperator, hx⟩
  · rintro ⟨definition, column, stored, child, operator, hdefinition, hstored, hchild,
      hoperator, hx⟩
    refine bind_eq_ok_iff.mpr ⟨definition, hdefinition, ?_⟩
    refine bind_eq_ok_iff.mpr ⟨(column, stored), hstored, ?_⟩
    dsimp only
    rw [hoperator]
    exact map_eq_ok_iff.mpr ⟨child, hchild, hx⟩

/-- Where a condition can be written with negation it can be written without,
and the two operators are opposites.  A condition with `<>` under `ever` is the
exception. -/
theorem documentOperator_opposite {op : Comparison} {ever : Bool} {operator : String}
    (hnegated : op.documentOperator true ever = some operator)
    (hever : ever = true → op ≠ .notEquals) :
    ∃ plain, op.documentOperator false ever = some plain ∧
      if op = .inGroup then plain = "equals" ∧ operator = "notequals"
      else (plain, operator) ∈ Element.opposites ∨ (operator, plain) ∈ Element.opposites := by
  cases op <;> cases ever <;>
    simp_all [Comparison.documentOperator, Element.opposites]

theorem truth?_conditionFrame (reading : Element → Bool) (op : Comparison)
    (definition column : FieldDefinition) (child : Element) (operator : String) :
    (conditionFrame op definition column child operator).truth? reading =
      some (reading (conditionFrame op definition column child operator)) := by
  simp [conditionFrame, Element.truth?]

theorem set_conditionFrame (op : Comparison) (definition column : FieldDefinition)
    (child : Element) (operator other : String) :
    (conditionFrame op definition column child operator).set "Operator" other =
      conditionFrame op definition column child other := by
  simp [conditionFrame, Element.set, Element.assign]

variable {session : Session} {reading : Element → Bool}

/-- Opposite operators in one frame are read as opposites. -/
theorem reading_conditionFrame (hreading : Element.Consistent reading) {op : Comparison}
    {ever : Bool} {operator : String} (hnegated : op.documentOperator true ever = some operator)
    (hever : ever = true → op ≠ .notEquals) (definition column : FieldDefinition)
    (child : Element) :
    ∃ plain, op.documentOperator false ever = some plain ∧
      reading (conditionFrame op definition column child operator) =
        !reading (conditionFrame op definition column child plain) := by
  obtain ⟨plain, hplain, hopposite⟩ := documentOperator_opposite hnegated hever
  refine ⟨plain, hplain, ?_⟩
  have hset := set_conditionFrame op definition column child operator
  rw [← hset operator, ← hset plain]
  split at hopposite
  · rename_i hop
    obtain ⟨rfl, rfl⟩ := hopposite
    exact hreading.group _ rfl (by simp [conditionFrame, hop, Element.attribute?, List.lookup_cons])
  · rename_i hop
    have hfree : (conditionFrame op definition column child operator).attribute?
        "ExpandConstant" = none := by
      simp [conditionFrame, hop, Element.attribute?, List.lookup_cons]
    obtain hpair | hpair := hopposite
    · exact hreading.opposite _ rfl hfree _ hpair
    · rw [hreading.opposite _ rfl hfree _ hpair, Bool.not_not]

/-- The element of a condition is as true as the one without negation, or the
opposite of it. -/
theorem conditionElement_truth (hreading : Element.Consistent reading) {negated ever : Bool}
    {op : Comparison} {left : FieldRef} {right : Expr} {span : Span} {x : Element}
    (helement : session.conditionElement ⟨negated, ever⟩ op left right span = .ok x)
    (hever : ever = true → op ≠ .notEquals) :
    ∃ y, session.conditionElement ⟨false, ever⟩ op left right span = .ok y ∧
      x.truth? reading = some (negated ^^ reading y) := by
  obtain ⟨definition, column, stored, child, operator, hdefinition, hstored, hchild, hoperator,
    rfl⟩ := conditionElement_eq_ok_iff.mp helement
  rw [truth?_conditionFrame]
  cases negated with
  | false => exact ⟨_, helement, by rw [Bool.false_xor]⟩
  | true =>
      have hplace : (ever || (op.isSearch && column.id == CoreField.history)) = true →
          op ≠ .notEquals := by
        rintro h rfl
        exact hever (by simpa [Comparison.isSearch] using h) rfl
      obtain ⟨plain, hplain, hopposite⟩ :=
        reading_conditionFrame hreading hoperator hplace definition column child
      refine ⟨_, conditionElement_eq_ok_iff.mpr ⟨definition, column, stored, child, plain,
        hdefinition, hstored, hchild, hplain, rfl⟩, ?_⟩
      rw [hopposite, Bool.true_xor]

/-! ## Filters -/

theorem truth?_groupElement (reading : Element → Bool) (operator : String)
    (hoperator : operator = "and" ∨ operator = "or") (children : List Element) :
    (groupElement operator children).truth? reading =
      (Element.truths? reading children).map fun values =>
        if operator = "and" then values.all id else values.any id := by
  obtain rfl | rfl := hoperator <;> simp [groupElement, Element.truth?]

/-- A truth value is written as `System.Id` being zero or not. -/
theorem truthElement_eq (polarity : Polarity) (value : Bool) :
    truthElement polarity value =
      Element.idIsZero.set "Operator"
        (if value = polarity.negated then "equals" else "notEquals") := by
  simp [truthElement, Element.idIsZero, Element.set, Element.assign]

/-- The element of a truth value has that value. -/
theorem truth?_truthElement (hreading : Element.Consistent reading) (polarity : Polarity)
    (value : Bool) :
    (truthElement polarity value).truth? reading = some (polarity.negated ^^ value) := by
  have hequals : reading (Element.idIsZero.set "Operator" "equals") = false := hreading.idIsNotZero
  have hpair : ("equals", "notEquals") ∈ Element.opposites := by simp [Element.opposites]
  have hnotEquals : reading (Element.idIsZero.set "Operator" "notEquals") = true := by
    rw [hreading.opposite Element.idIsZero rfl rfl _ hpair, hequals, Bool.not_false]
  have hexpression : ∀ operator, (Element.idIsZero.set "Operator" operator).truth? reading =
      some (reading (Element.idIsZero.set "Operator" operator)) := by
    intro operator
    simp [Element.idIsZero, Element.set, Element.truth?]
  rw [truthElement_eq, hexpression]
  by_cases hvalue : value = polarity.negated
  · rw [if_pos hvalue, hequals, hvalue, Bool.xor_self]
  · rw [if_neg hvalue, hnotEquals]
    cases hnegated : polarity.negated <;> cases value <;> simp_all

theorem verdict?_junction (session : Session) (reading : Element → Bool) (ever : Bool) (m : Mark)
    (connective : Connective) (operands : List Expr) :
    session.verdict? reading ever (.junction m connective operands) =
      (session.verdicts? reading ever operands).map fun values =>
        if connective = .and then values.all id else values.any id := by
  cases connective <;> simp [verdict?]

/-- The operands of a negated group are opposites, and so is the group of the
other operator. -/
theorem groupOperator_truth (connective : Connective) (negated : Bool) (values : List Bool) :
    (if groupOperator connective negated = "and" then (values.map (negated ^^ ·)).all id
      else (values.map (negated ^^ ·)).any id) =
      (negated ^^ if connective = .and then values.all id else values.any id) := by
  cases connective <;> cases negated <;>
    simp [groupOperator, List.all_map, List.any_map, List.not_all_eq_any_not,
      List.not_any_eq_all_not]

/-- The elements of operands are as true as the operands, or the opposite of
them, if each is. -/
theorem elements_truth {negated ever : Bool} {es : List Expr} {xs : List Element}
    (ih : ∀ e ∈ es, ∀ x, session.element ⟨negated, ever⟩ e = .ok x →
      ∃ value, session.verdict? reading ever e = some value ∧
        x.truth? reading = some (negated ^^ value))
    (helements : session.elements ⟨negated, ever⟩ es = .ok xs) :
    ∃ values, session.verdicts? reading ever es = some values ∧
      Element.truths? reading xs = some (values.map (negated ^^ ·)) := by
  induction es generalizing xs with
  | nil =>
      cases helements
      exact ⟨[], rfl, rfl⟩
  | cons e es ihes =>
      obtain ⟨x, hx, helements⟩ := bind_eq_ok_iff.mp helements
      obtain ⟨others, hothers, helements⟩ := bind_eq_ok_iff.mp helements
      cases helements
      obtain ⟨value, hvalue, htruth⟩ := ih e (by simp) x hx
      obtain ⟨values, hvalues, htruths⟩ := ihes (fun e he => ih e (by simp [he])) hothers
      refine ⟨value :: values, ?_, ?_⟩
      · rw [verdicts?, hvalue, hvalues]
        rfl
      · rw [Element.truths?, htruth, htruths]
        rfl

/-- The element of a filter is as true as the filter, or the opposite of it
where it stands under a negation. -/
theorem element_truth (hreading : Element.Consistent reading) (e : Expr) (negated ever : Bool)
    (x : Element) (hplain : e.Everywhere Expr.everOverCondition)
    (hever : ever = true → ∀ m, (Expr.ever m e).everOverCondition)
    (helement : session.element ⟨negated, ever⟩ e = .ok x) :
    ∃ value, session.verdict? reading ever e = some value ∧
      x.truth? reading = some (negated ^^ value) := by
  induction e generalizing negated ever x with
  | truth m value =>
      cases helement
      exact ⟨value, rfl, truth?_truthElement hreading ⟨negated, ever⟩ value⟩
  | condition m op left right ih =>
      obtain ⟨y, hy, htruth⟩ :=
        conditionElement_truth hreading helement fun hset => hever hset m
      refine ⟨reading y, ?_, htruth⟩
      rw [verdict?, hy]
      rfl
  | not m operand ih =>
      have hunset : ever = false := by
        rw [Bool.eq_false_iff]
        exact fun hset => hever hset m
      subst hunset
      obtain ⟨value, hvalue, htruth⟩ :=
        ih (!negated) false x hplain.2 (by simp) helement
      refine ⟨!value, ?_, ?_⟩
      · rw [verdict?, hvalue]
        rfl
      · rw [htruth]
        simp
  | ever m operand ih =>
      refine ih negated true x hplain.2 (fun _ m' => ?_) helement
      cases operand with
      | condition m'' op left right => exact hplain.1
      | _ => exact hplain.1.elim
  | junction m connective operands ih =>
      have hunset : ever = false := by
        rw [Bool.eq_false_iff]
        exact fun hset => hever hset m
      subst hunset
      obtain ⟨xs, hxs, helement⟩ := bind_eq_ok_iff.mp helement
      cases helement
      obtain ⟨values, hvalues, htruths⟩ := elements_truth
        (fun e he x hx => ih e he negated false x
          (Expr.allEverywhere_iff.mp hplain.2 e he) (by simp) hx) hxs
      refine ⟨if connective = .and then values.all id else values.any id, ?_, ?_⟩
      · rw [verdict?_junction, hvalues]
        rfl
      · have hoperator : groupOperator connective negated = "and" ∨
            groupOperator connective negated = "or" := by
          unfold groupOperator
          split <;> simp
        rw [truth?_groupElement reading _ hoperator, htruths, Option.map_some,
          groupOperator_truth]
  | _ => cases helement

/-- A point in time is written as an attribute of the document. -/
theorem setAsOf_eq_ok {query : Select} {root document : Element}
    (hset : session.setAsOf query root = .ok document) :
    document = root ∨ ∃ value, document = root.set "AsOf" value := by
  unfold setAsOf at hset
  split at hset
  · cases hset
    exact .inl rfl
  · split at hset
    · obtain ⟨instant, -, hset⟩ := bind_eq_ok_iff.mp hset
      cases hset
      exact .inr ⟨_, rfl⟩
    · cases hset

end Session

/-- The document of a filter that was read, resolved and simplified has the
truth value of the filter, whatever the truth values of its expressions are, as
long as opposite operators are read as opposites. -/
theorem Compiler.document_truth_eq_filter_truth {compiler : Compiler} {text : String}
    {session : Session} {query : Select} {filter : Expr} {document : Xml.Element}
    {reading : Xml.Element → Bool}
    (hsession : compiler.session = .ok session)
    (hquery : compiler.optimize text = .ok query) (hfilter : query.filter = some filter)
    (hdocument : session.element {} filter = .ok document)
    (hreading : Xml.Element.Consistent reading) :
    ∃ value, document.truth? reading = some value ∧
      session.verdict? reading false filter = some value := by
  obtain ⟨scope, bound, hresolved, hsimplify⟩ :=
    Session.optimize_filter (Compiler.optimize_eq_ok hsession hquery) hfilter
  have hplain := Session.everywhere_everOverCondition_of_simplify hresolved hsimplify
  obtain ⟨value, hverdict, htruth⟩ :=
    Session.element_truth hreading filter false false document hplain (by simp) hdocument
  exact ⟨value, by rw [htruth, Bool.false_xor], hverdict⟩

/-- A filter with a negation over a choice and an `ever` below it. -/
theorem Compiler.document_truth_of_negated_choice :
    ∃ session query filter document,
      ({} : Compiler).session = .ok session ∧
      ({} : Compiler).optimize
        "select * from WorkItems where not (State = 'a' or ever Title contains 'b')" = .ok query ∧
      query.filter = some filter ∧ session.element {} filter = .ok document ∧
      ∃ value, document.truth? Xml.Element.denials = some value ∧
        session.verdict? Xml.Element.denials false filter = some value := by
  have hcompiles : (do
      let session ← ({} : Compiler).session.toOption
      let query ← (({} : Compiler).optimize
        "select * from WorkItems where not (State = 'a' or ever Title contains 'b')").toOption
      let filter ← query.filter
      (session.element {} filter).toOption).isSome = true := by
    decide +kernel
  obtain ⟨document, hcompiles⟩ := Option.isSome_iff_exists.mp hcompiles
  simp only [Option.bind_eq_bind, Option.bind_eq_some_iff, toOption_eq_some_iff] at hcompiles
  obtain ⟨session, hsession, query, hquery, filter, hfilter, hdocument⟩ := hcompiles
  exact ⟨session, query, filter, document, hsession, hquery, hfilter, hdocument,
    Compiler.document_truth_eq_filter_truth hsession hquery hfilter hdocument
      Xml.Element.consistent_denials⟩

end TrackerQuery

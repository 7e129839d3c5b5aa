import TrackerQuery.Proofs.BoundQuery
import TrackerQuery.Proofs.DocumentTruth

/-!
# The parts of a link query

The operands of the filter of a link query are sorted into those about the
source, the link and the target.  Nothing is lost: an operand about more than one
of them is refused, every other one goes to its side, and the parts of the
document together say what the filter says.
-/

namespace TrackerQuery

open Xml (Element)

def Side.qualifier : Side → Option String
  | .source => some Session.sourceQualifier
  | .link => none
  | .target => some Session.targetQualifier

def Side.part : Side → String
  | .source => "LeftQuery"
  | .link => "LinkQuery"
  | .target => "RightQuery"

def Side.choose {α : Type} (source link target : α) : Side → α
  | .source => source
  | .link => link
  | .target => target

def Sides.operands (sides : Sides) : Side → List Expr :=
  Side.choose sides.source sides.link sides.target

def Select.operands (query : Select) : List Expr :=
  (query.filter.map Expr.conjuncts).getD []

theorem Expr.mem_fieldRefs_of_mem_conjuncts {e operand : Expr} (hoperand : operand ∈ e.conjuncts)
    {field : FieldRef} (hfield : field ∈ operand.fieldRefs) : field ∈ e.fieldRefs := by
  unfold conjuncts at hoperand
  split at hoperand
  · rw [fieldRefs, fieldRefsOfAll_eq_flatMap]
    exact List.mem_flatMap.mpr ⟨operand, hoperand, hfield⟩
  · rw [List.mem_singleton.mp hoperand] at hfield
    exact hfield

theorem Expr.everywhere_of_mem_conjuncts {P : Expr → Prop} {e operand : Expr}
    (hoperand : operand ∈ e.conjuncts) (he : e.Everywhere P) : operand.Everywhere P := by
  unfold conjuncts at hoperand
  split at hoperand
  · exact allEverywhere_iff.mp he.2 operand hoperand
  · rw [List.mem_singleton.mp hoperand]
    exact he

namespace Session

variable {session : Session}

/-! ## Fields and their sides -/

/-- What a field of a link query is about: the link, or the work item at one of
its ends. -/
def fieldSide (session : Session) (field : FieldRef) : Side :=
  if (session.definition? field).any FieldDefinition.isLinkField then .link
  else if field.qualifier = some targetQualifier then .target
  else .source

/-- The side of the fields of an operand; one without fields goes to the
source. -/
def operandSide (session : Session) (operand : Expr) : Side :=
  (operand.fieldRefs.head?.map session.fieldSide).getD .source

/-- The operand mentions fields of more than one side. -/
def Mixed (session : Session) (operand : Expr) : Prop :=
  ∃ a ∈ operand.fieldRefs, ∃ b ∈ operand.fieldRefs, session.fieldSide a ≠ session.fieldSide b

theorem qualifier_of_knows {mode : QueryMode} (hmode : mode.isLinkQuery = true)
    {field : FieldRef} (hfield : session.Knows mode field) :
    field.qualifier = (session.fieldSide field).qualifier := by
  obtain ⟨definition, hdefinition, -, hqualifies⟩ := hfield
  unfold Qualifies at hqualifies
  unfold fieldSide
  rw [hdefinition, Option.any_some]
  by_cases hlink : definition.isLinkField = true
  · rw [if_neg (by simp [hlink])] at hqualifies
    rw [if_pos hlink]
    exact hqualifies
  · rw [if_pos ⟨hmode, by simpa using hlink⟩] at hqualifies
    rw [if_neg hlink]
    obtain hsource | htarget := hqualifies
    · rw [if_neg (by rw [hsource]; decide)]
      exact hsource
    · rw [if_pos htarget]
      exact htarget

theorem qualifierText_eq_iff {mode : QueryMode} (hmode : mode.isLinkQuery = true)
    {a b : FieldRef} (ha : session.Knows mode a) (hb : session.Knows mode b) :
    a.qualifierText = b.qualifierText ↔ session.fieldSide a = session.fieldSide b := by
  have hinjective : ∀ s t : Side, s.qualifier.getD "" = t.qualifier.getD "" → s = t := by
    intro s t
    cases s <;> cases t <;> decide
  rw [FieldRef.qualifierText, FieldRef.qualifierText, qualifier_of_knows hmode ha,
    qualifier_of_knows hmode hb]
  exact ⟨hinjective _ _, fun h => by rw [h]⟩

theorem fieldSide_of_not_mixed {operand : Expr} (hmixed : ¬ session.Mixed operand) :
    ∀ field ∈ operand.fieldRefs, session.fieldSide field = session.operandSide operand := by
  intro field hfield
  unfold operandSide
  cases hfields : operand.fieldRefs with
  | nil =>
      rw [hfields] at hfield
      cases hfield
  | cons first others =>
      by_cases hsame : session.fieldSide field = session.fieldSide first
      · exact hsame
      · exact absurd ⟨field, hfield, first, by rw [hfields]; simp, hsame⟩ hmixed

section Operands

variable {mode : QueryMode} (hmode : mode.isLinkQuery = true)
include hmode

/-- An operand about more than one side is refused. -/
theorem ofOperand_of_mixed {operand : Expr}
    (hknown : ∀ field ∈ operand.fieldRefs, session.Knows mode field)
    (hmixed : session.Mixed operand) :
    Side.ofOperand operand = .error (.located .mixedPrefixes operand.span) := by
  obtain ⟨a, ha, b, hb, hne⟩ := hmixed
  unfold Side.ofOperand
  rw [Expr.qualifiers_eq_map]
  cases hfields : operand.fieldRefs with
  | nil =>
      rw [hfields] at ha
      cases ha
  | cons first others =>
      rw [hfields] at ha hb hknown
      have hsome : ¬ (others.map FieldRef.qualifierText).all (· == first.qualifierText) = true := by
        intro hall
        have hsame : ∀ field ∈ first :: others,
            session.fieldSide field = session.fieldSide first := by
          intro field hfield
          rcases List.mem_cons.mp hfield with rfl | hother
          · rfl
          · apply (qualifierText_eq_iff hmode (hknown field hfield) (hknown first (by simp))).mp
            simpa using List.all_eq_true.mp hall _ (List.mem_map_of_mem hother)
        exact hne ((hsame a ha).trans (hsame b hb).symm)
      simp only [List.map_cons]
      rw [if_pos (by simpa using hsome)]

/-- An operand about one side goes there. -/
theorem ofOperand_of_not_mixed {operand : Expr}
    (hknown : ∀ field ∈ operand.fieldRefs, session.Knows mode field)
    (hmixed : ¬ session.Mixed operand) :
    Side.ofOperand operand = .ok (session.operandSide operand) := by
  have hsame := fieldSide_of_not_mixed hmixed
  unfold Side.ofOperand
  rw [Expr.qualifiers_eq_map]
  cases hfields : operand.fieldRefs with
  | nil =>
      rw [operandSide, hfields]
      rfl
  | cons first others =>
      rw [hfields] at hsame hknown
      have hall : (others.map FieldRef.qualifierText).all (· == first.qualifierText) = true := by
        apply List.all_eq_true.mpr
        intro text htext
        obtain ⟨field, hfield, rfl⟩ := List.mem_map.mp htext
        apply beq_iff_eq.mpr
        apply (qualifierText_eq_iff hmode (hknown field (by simp [hfield]))
          (hknown first (by simp))).mpr
        exact (hsame field (by simp [hfield])).trans (hsame first (by simp)).symm
      have htext : first.qualifierText = (session.operandSide operand).qualifier.getD "" := by
        rw [FieldRef.qualifierText, qualifier_of_knows hmode (hknown first (by simp)),
          hsame first (by simp)]
      simp only [List.map_cons]
      rw [if_neg (by simpa using hall), htext]
      cases session.operandSide operand <;> rfl

/-- Sorting the operands fails at the first one that is mixed, and otherwise puts
each where its fields belong, in order. -/
theorem ofOperands_eq {operands : List Expr}
    (hknown : ∀ operand ∈ operands, ∀ field ∈ operand.fieldRefs, session.Knows mode field) :
    (∃ operand ∈ operands, session.Mixed operand ∧
        Sides.ofOperands operands = .error (.located .mixedPrefixes operand.span)) ∨
      (∀ operand ∈ operands, ¬ session.Mixed operand) ∧
        ∃ sides, Sides.ofOperands operands = .ok sides ∧
          ∀ side, sides.operands side = operands.filter (session.operandSide · == side) := by
  induction operands with
  | nil => exact .inr ⟨by simp, {}, rfl, fun side => by cases side <;> rfl⟩
  | cons operand others ih =>
      obtain ⟨hfirst, hothers⟩ := List.forall_mem_cons.mp hknown
      by_cases hmixed : session.Mixed operand
      · refine .inl ⟨operand, by simp, hmixed, ?_⟩
        rw [Sides.ofOperands, ofOperand_of_mixed hmode hfirst hmixed]
        rfl
      · have hside := ofOperand_of_not_mixed hmode hfirst hmixed
        obtain ⟨culprit, hculprit, hbad, hfail⟩ | ⟨hnone, sides, hsides, hfilter⟩ := ih hothers
        · refine .inl ⟨culprit, by simp [hculprit], hbad, ?_⟩
          rw [Sides.ofOperands, hside, hfail]
          rfl
        · refine .inr ⟨List.forall_mem_cons.mpr ⟨hmixed, hnone⟩,
            sides.add operand (session.operandSide operand), ?_, fun side => ?_⟩
          · rw [Sides.ofOperands, hside, hsides]
            rfl
          · rw [List.filter_cons, ← hfilter side]
            cases session.operandSide operand <;> cases side <;> rfl

end Operands

/-! ## Truth by sides -/

mutual

/-- The truth value of the filter of a link query, where the conditions about the
source, the link and the target are read each in their own way. -/
def linkVerdict? (session : Session) (reading : Side → Element → Bool) (ever : Bool) :
    Expr → Option Bool
  | .truth _ value => some value
  | .condition m op left right =>
      (session.conditionElement ⟨false, ever⟩ op left right m.span).toOption.map
        (reading (session.fieldSide left))
  | .junction _ .and operands =>
      (linkVerdicts? session reading ever operands).map fun values => values.all id
  | .junction _ .or operands =>
      (linkVerdicts? session reading ever operands).map fun values => values.any id
  | .not _ operand => (linkVerdict? session reading ever operand).map (!·)
  | .ever _ operand => linkVerdict? session reading true operand
  | _ => none
termination_by structural e => e

def linkVerdicts? (session : Session) (reading : Side → Element → Bool) (ever : Bool) :
    List Expr → Option (List Bool)
  | [] => some []
  | e :: es =>
      (linkVerdict? session reading ever e).bind fun value =>
        (linkVerdicts? session reading ever es).map (value :: ·)
termination_by structural es => es

end

variable {reading : Side → Element → Bool}

theorem linkVerdicts?_eq {side : Side} {ever : Bool} {es : List Expr}
    (hes : ∀ e ∈ es,
      session.linkVerdict? reading ever e = session.verdict? (reading side) ever e) :
    session.linkVerdicts? reading ever es = session.verdicts? (reading side) ever es := by
  induction es with
  | nil => rfl
  | cons e es ih =>
      obtain ⟨hfirst, hothers⟩ := List.forall_mem_cons.mp hes
      rw [linkVerdicts?, verdicts?, hfirst, ih hothers]

/-- An operand about one side is read as that side is. -/
theorem linkVerdict?_of_side {side : Side} (e : Expr) (ever : Bool)
    (hside : ∀ field ∈ e.fieldRefs, session.fieldSide field = side) :
    session.linkVerdict? reading ever e = session.verdict? (reading side) ever e := by
  induction e generalizing ever with
  | condition m op left right ih =>
      rw [linkVerdict?, verdict?, hside left (by simp [Expr.fieldRefs])]
  | junction m connective operands ih =>
      have hoperands : session.linkVerdicts? reading ever operands =
          session.verdicts? (reading side) ever operands := by
        apply linkVerdicts?_eq
        intro operand hoperand
        apply ih operand hoperand
        intro field hfield
        apply hside
        rw [Expr.fieldRefs, Expr.fieldRefsOfAll_eq_flatMap]
        exact List.mem_flatMap.mpr ⟨operand, hoperand, hfield⟩
      cases connective with
      | and => rw [linkVerdict?, verdict?, hoperands]
      | or => rw [linkVerdict?, verdict?, hoperands]
  | not m operand ih => rw [linkVerdict?, verdict?, ih ever hside]
  | ever m operand ih => exact ih true hside
  | _ => rfl

/-- What a filter says is what its conjuncts say together. -/
theorem linkVerdict?_eq_conjuncts (e : Expr) :
    session.linkVerdict? reading false e =
      (session.linkVerdicts? reading false e.conjuncts).map fun values => values.all id := by
  unfold Expr.conjuncts
  split
  · rfl
  · rw [linkVerdicts?, linkVerdicts?]
    cases session.linkVerdict? reading false e <;> simp

/-- The element of operands that all have to hold is as true as all of them. -/
theorem conjunction_truth {sideReading : Element → Bool}
    (hreading : Element.Consistent sideReading) {operands : List Expr} {x : Element}
    (hplain : ∀ operand ∈ operands, operand.Everywhere Expr.everOverCondition)
    (hconjunction : session.conjunction operands = .ok x) :
    ∃ values, session.verdicts? sideReading false operands = some values ∧
      x.truth? sideReading = some (values.all id) := by
  have htruth : ∀ operand ∈ operands, ∀ y, session.element ⟨false, false⟩ operand = .ok y →
      ∃ value, session.verdict? sideReading false operand = some value ∧
        y.truth? sideReading = some (false ^^ value) :=
    fun operand hoperand y hy =>
      element_truth hreading operand false false y (hplain operand hoperand) (by simp) hy
  unfold conjunction at hconjunction
  split at hconjunction
  · rename_i operand
    obtain ⟨value, hvalue, hx⟩ := htruth operand (by simp) x hconjunction
    refine ⟨[value], ?_, ?_⟩
    · rw [verdicts?, hvalue, verdicts?]
      rfl
    · rw [hx]
      simp
  · obtain ⟨xs, hxs, hx⟩ := bind_eq_ok_iff.mp hconjunction
    cases hx
    obtain ⟨values, hvalues, hxs⟩ := elements_truth htruth hxs
    refine ⟨values, hvalues, ?_⟩
    rw [truth?_groupElement sideReading "and" (.inl rfl), hxs]
    simp

/-! ## The parts of the document -/

end Session

/-- The truth value of the condition that a part holds; a part that is not there
holds none. -/
def Xml.Element.partTruth? (reading : Element → Bool) (document : Element) (name : String) :
    Option Bool :=
  match document.child? name with
  | none => some true
  | some part =>
      match part.children with
      | [condition] => condition.truth? reading
      | _ => none

/-- The truth value of all the parts of a link query together. -/
def Xml.Element.linkTruth? (reading : Side → Element → Bool) (document : Element) :
    Option Bool := do
  let source ← document.partTruth? (reading .source) Side.source.part
  let link ← document.partTruth? (reading .link) Side.link.part
  let target ← document.partTruth? (reading .target) Side.target.part
  return source && link && target

namespace Session

variable {session : Session} {reading : Side → Element → Bool}

def part? (session : Session) (name : String) (operands : List Expr) :
    Except Error (Option Element) :=
  if operands.isEmpty then .ok none
  else (session.conjunction operands).map fun condition =>
    some { name, children := [condition] }

theorem children_of_addPart {name : String} {operands : List Expr} {root extended : Element}
    (hadd : session.addPart name operands root = .ok extended) :
    ∃ part, session.part? name operands = .ok part ∧
      extended.children = root.children ++ part.toList := by
  unfold addPart at hadd
  unfold part?
  split at hadd
  · rename_i hempty
    cases hadd
    exact ⟨none, if_pos hempty, by simp⟩
  · rename_i hsome
    obtain ⟨condition, hcondition, hadd⟩ := bind_eq_ok_iff.mp hadd
    cases hadd
    refine ⟨some { name, children := [condition] }, ?_, rfl⟩
    rw [if_neg hsome, hcondition]
    rfl

theorem children_of_setAsOf {query : Select} {root document : Element}
    (hset : session.setAsOf query root = .ok document) :
    document.children = root.children := by
  obtain rfl | ⟨value, rfl⟩ := setAsOf_eq_ok hset <;> rfl

theorem part?_eq_ok {name : String} {operands : List Expr} {part : Option Element}
    (hpart : session.part? name operands = .ok part) :
    (part = none ∧ operands = []) ∨
      ∃ condition, part = some { name, children := [condition] } ∧ operands ≠ [] ∧
        session.conjunction operands = .ok condition := by
  unfold part? at hpart
  split at hpart
  · rename_i hempty
    cases hpart
    exact .inl ⟨rfl, List.isEmpty_iff.mp hempty⟩
  · rename_i hsome
    obtain ⟨condition, hcondition, rfl⟩ := map_eq_ok_iff.mp hpart
    exact .inr ⟨condition, rfl, by simpa using hsome, hcondition⟩

/-- The document of a query that is not recursive has one part for each side that
has operands. -/
theorem linkDocument_eq_ok {query : Select} {document : Element}
    (hmode : query.mode ≠ .linksRecursive)
    (hdocument : session.linkDocument query = .ok document) :
    ∃ (sides : Sides) (parts : Side → Option Element),
      Sides.ofFilter query.filter = .ok sides ∧
      ∀ side, session.part? side.part (sides.operands side) = .ok (parts side) ∧
        document.child? side.part = parts side := by
  unfold linkDocument at hdocument
  split at hdocument
  · cases hdocument
  · obtain ⟨sides, hsides, hdocument⟩ := bind_eq_ok_iff.mp hdocument
    obtain ⟨root, hsource, hdocument⟩ := bind_eq_ok_iff.mp hdocument
    rw [if_neg hmode] at hdocument
    obtain ⟨root', hlink, hdocument⟩ := bind_eq_ok_iff.mp hdocument
    obtain ⟨root'', htarget, hdocument⟩ := bind_eq_ok_iff.mp hdocument
    obtain ⟨source, hsource, hchildren⟩ := children_of_addPart hsource
    obtain ⟨link, hlink, hchildren'⟩ := children_of_addPart hlink
    obtain ⟨target, htarget, hchildren''⟩ := children_of_addPart htarget
    have hparts : document.children = source.toList ++ link.toList ++ target.toList := by
      rw [children_of_setAsOf hdocument, hchildren'', hchildren', hchildren, List.nil_append]
    have hall : ∀ side, session.part? side.part (sides.operands side) =
        .ok (Side.choose source link target side) := by
      intro side
      cases side
      · exact hsource
      · exact hlink
      · exact htarget
    refine ⟨sides, Side.choose source link target, hsides, fun side => ⟨hall side, ?_⟩⟩
    unfold Element.child?
    rw [hparts]
    obtain ⟨rfl, -⟩ | ⟨x, rfl, -⟩ := part?_eq_ok hsource <;>
      obtain ⟨rfl, -⟩ | ⟨y, rfl, -⟩ := part?_eq_ok hlink <;>
        obtain ⟨rfl, -⟩ | ⟨z, rfl, -⟩ := part?_eq_ok htarget <;> cases side <;> rfl

/-! ## Nothing is lost -/

theorem linkVerdicts?_eq_some_iff {ever : Bool} {operands : List Expr} {values : List Bool} :
    session.linkVerdicts? reading ever operands = some values ↔
      operands.map (session.linkVerdict? reading ever) = values.map some := by
  induction operands generalizing values with
  | nil => cases values <;> simp [linkVerdicts?]
  | cons operand others ih =>
      rw [linkVerdicts?]
      cases values with
      | nil => simp [Option.bind_eq_some_iff]
      | cons value values =>
          rw [List.map_cons, List.map_cons, List.cons.injEq, ← ih]
          constructor
          · intro h
            obtain ⟨first, hfirst, h⟩ := Option.bind_eq_some_iff.mp h
            obtain ⟨rest, hrest, h⟩ := Option.map_eq_some_iff.mp h
            cases h
            exact ⟨hfirst, hrest⟩
          · rintro ⟨hfirst, hrest⟩
            rw [hfirst, Option.bind_some, hrest]
            rfl

theorem all_eq_sides {α : Type} (side : α → Side) (holds : α → Bool) (l : List α) :
    l.all holds = ((l.filter (side · == .source)).all holds &&
      (l.filter (side · == .link)).all holds && (l.filter (side · == .target)).all holds) := by
  rw [Bool.eq_iff_iff]
  simp only [Bool.and_eq_true, List.all_eq_true, List.mem_filter, beq_iff_eq]
  constructor
  · intro h
    exact ⟨⟨fun a ha => h a ha.1, fun a ha => h a ha.1⟩, fun a ha => h a ha.1⟩
  · rintro ⟨⟨hsource, hlink⟩, htarget⟩ a ha
    cases hside : side a with
    | source => exact hsource a ⟨ha, hside⟩
    | link => exact hlink a ⟨ha, hside⟩
    | target => exact htarget a ⟨ha, hside⟩

/-- If each side has a truth value, the operands together have the one that all
sides have together. -/
theorem linkVerdicts?_of_sides {operands : List Expr} (values : Side → List Bool)
    (hvalues : ∀ side, session.linkVerdicts? reading false
      (operands.filter (session.operandSide · == side)) = some (values side)) :
    (session.linkVerdicts? reading false operands).map (fun values => values.all id) =
      some ((values .source).all id && (values .link).all id && (values .target).all id) := by
  let holds : Expr → Bool := fun operand => (session.linkVerdict? reading false operand).getD true
  have hholds : ∀ operand ∈ operands,
      session.linkVerdict? reading false operand = some (holds operand) := by
    intro operand hoperand
    have hside := linkVerdicts?_eq_some_iff.mp (hvalues (session.operandSide operand))
    have hmem : session.linkVerdict? reading false operand ∈
        (values (session.operandSide operand)).map some := by
      rw [← hside]
      apply List.mem_map_of_mem
      simp [hoperand]
    obtain ⟨value, -, hvalue⟩ := List.mem_map.mp hmem
    simp only [holds, ← hvalue, Option.getD_some]
  have hsides : ∀ side, (values side).all id =
      (operands.filter (session.operandSide · == side)).all holds := by
    intro side
    have hsome : (values side).map some =
        ((operands.filter (session.operandSide · == side)).map holds).map some := by
      rw [← linkVerdicts?_eq_some_iff.mp (hvalues side), List.map_map]
      apply List.map_congr_left
      intro operand hoperand
      exact hholds operand (List.mem_filter.mp hoperand).1
    have hlist := (List.map_inj_right fun _ _ => Option.some.inj).mp hsome
    rw [hlist, List.all_map]
    rfl
  have hwhole : session.linkVerdicts? reading false operands = some (operands.map holds) := by
    apply linkVerdicts?_eq_some_iff.mpr
    rw [List.map_map]
    exact List.map_congr_left hholds
  rw [hwhole, Option.map_some, hsides, hsides, hsides, List.all_map]
  exact congrArg some (all_eq_sides session.operandSide holds operands)

/-- A part is as true as the operands of its side, and there if they are. -/
theorem partTruth?_of_side {document : Element} {side : Side} {operands : List Expr}
    {part : Option Element} (hreading : Element.Consistent (reading side))
    (hplain : ∀ operand ∈ operands, operand.Everywhere Expr.everOverCondition)
    (hside : ∀ operand ∈ operands, ∀ field ∈ operand.fieldRefs, session.fieldSide field = side)
    (hpart : session.part? side.part operands = .ok part)
    (hchild : document.child? side.part = part) :
    ∃ values, session.linkVerdicts? reading false operands = some values ∧
      document.partTruth? (reading side) side.part = some (values.all id) := by
  unfold Element.partTruth?
  rw [hchild]
  obtain ⟨rfl, rfl⟩ | ⟨condition, rfl, -, hcondition⟩ := part?_eq_ok hpart
  · exact ⟨[], rfl, rfl⟩
  · obtain ⟨values, hvalues, htruth⟩ := conjunction_truth hreading hplain hcondition
    refine ⟨values, ?_, htruth⟩
    rw [← hvalues]
    apply linkVerdicts?_eq
    intro operand hoperand
    exact linkVerdict?_of_side operand false (hside operand hoperand)

end Session

/-- What a filter that may be there says of a link. -/
def Select.linkVerdict? (session : Session) (reading : Side → Element → Bool) (query : Select) :
    Option Bool :=
  match query.filter with
  | some filter => session.linkVerdict? reading false filter
  | none => some true

theorem Select.linkVerdict?_eq_operands (session : Session) (reading : Side → Element → Bool)
    (query : Select) :
    query.linkVerdict? session reading =
      (session.linkVerdicts? reading false query.operands).map fun values => values.all id := by
  unfold linkVerdict? operands
  cases query.filter with
  | none => rfl
  | some filter => exact Session.linkVerdict?_eq_conjuncts filter

/-- An optimized query is a resolved one that was simplified. -/
theorem Session.optimize_eq_ok {session : Session} {text : String} {query : Select}
    (hoptimize : session.optimize text = .ok query) :
    ∃ bound : Select, bound.Resolved session.schema ∧
      session.simplifyQuery bound = .ok query := by
  obtain ⟨parsed, -, hoptimize⟩ := bind_eq_ok_iff.mp hoptimize
  obtain ⟨bound, hbound, hsimplify⟩ := bind_eq_ok_iff.mp hoptimize
  exact ⟨bound, Select.resolved_of_bind hbound, hsimplify⟩

/-- In the operands of an optimized query every field is known, and an `ever`
stands over a condition. -/
theorem Session.operands_of_optimize {session : Session} {text : String} {query : Select}
    (hoptimize : session.optimize text = .ok query) :
    ∀ operand ∈ query.operands,
      (∀ field ∈ operand.fieldRefs, session.Knows query.mode field) ∧
        operand.Everywhere Expr.everOverCondition := by
  intro operand hoperand
  obtain ⟨bound, hresolved, hsimplify⟩ := optimize_eq_ok hoptimize
  have hbound := bound_of_simplifyQuery hresolved hsimplify
  unfold Select.operands at hoperand
  cases hfilter : query.filter with
  | none =>
      rw [hfilter] at hoperand
      cases hoperand
  | some filter =>
      rw [hfilter] at hoperand
      constructor
      · intro field hfield
        apply hbound.fields
        have hmem := Expr.mem_fieldRefs_of_mem_conjuncts hoperand hfield
        simp [Select.fieldRefs, hfilter, hmem]
      · obtain ⟨scope, e, he, hs⟩ := optimize_filter hoptimize hfilter
        exact Expr.everywhere_of_mem_conjuncts hoperand
          (everywhere_everOverCondition_of_simplify he hs)

/-- The parts of the document of a link query say what its filter says. -/
theorem Session.linkTruth?_of_linkDocument {session : Session} {query : Select}
    {document : Element} {sides : Sides} {reading : Side → Element → Bool}
    (hmode : query.mode ≠ .linksRecursive)
    (hplain : ∀ operand ∈ query.operands, operand.Everywhere Expr.everOverCondition)
    (hmixed : ∀ operand ∈ query.operands, ¬ session.Mixed operand)
    (hsides : Sides.ofFilter query.filter = .ok sides)
    (hfilter : ∀ side,
      sides.operands side = query.operands.filter (session.operandSide · == side))
    (hdocument : session.linkDocument query = .ok document)
    (hreading : ∀ side, Element.Consistent (reading side)) :
    ∃ value, document.linkTruth? reading = some value ∧
      query.linkVerdict? session reading = some value := by
  obtain ⟨found, parts, hfound, hparts⟩ := linkDocument_eq_ok hmode hdocument
  rw [hsides] at hfound
  cases hfound
  have htruth : ∀ side, ∃ values,
      session.linkVerdicts? reading false (query.operands.filter (session.operandSide · == side)) =
        some values ∧
      document.partTruth? (reading side) side.part = some (values.all id) := by
    intro side
    rw [← hfilter side]
    refine partTruth?_of_side (hreading side) ?_ ?_ (hparts side).1 (hparts side).2
    · intro operand hoperand
      rw [hfilter side] at hoperand
      exact hplain operand (List.mem_filter.mp hoperand).1
    · intro operand hoperand field hfield
      rw [hfilter side] at hoperand
      obtain ⟨hmem, hside⟩ := List.mem_filter.mp hoperand
      rw [fieldSide_of_not_mixed (hmixed operand hmem) field hfield]
      exact beq_iff_eq.mp hside
  obtain ⟨source, hsource, hleft⟩ := htruth .source
  obtain ⟨link, hlink, hmiddle⟩ := htruth .link
  obtain ⟨target, htarget, hright⟩ := htruth .target
  refine ⟨source.all id && link.all id && target.all id, ?_, ?_⟩
  · rw [Element.linkTruth?, hleft, hmiddle, hright]
    rfl
  · rw [Select.linkVerdict?_eq_operands]
    apply linkVerdicts?_of_sides (Side.choose source link target)
    intro side
    cases side with
    | source => exact hsource
    | link => exact hlink
    | target => exact htarget

/-- The operands of an optimized link query are refused just if one of them is
about more than one of source, link and target.  Otherwise each goes to its side,
and the parts of the document say together what the filter says. -/
theorem Compiler.linkSides_of_optimize {compiler : Compiler} {session : Session} {text : String}
    {query : Select} (hsession : compiler.session = .ok session)
    (hquery : compiler.optimize text = .ok query) (hlink : query.isLinkQuery = true) :
    ((∃ error, Sides.ofFilter query.filter = .error error) ↔
        ∃ operand ∈ query.operands, session.Mixed operand) ∧
      (∀ error, Sides.ofFilter query.filter = .error error →
        ∃ operand ∈ query.operands, session.Mixed operand ∧
          error = .located .mixedPrefixes operand.span) ∧
      ∀ sides, Sides.ofFilter query.filter = .ok sides →
        (∀ side, sides.operands side = query.operands.filter (session.operandSide · == side)) ∧
        (∀ side, ∀ operand ∈ sides.operands side, ∀ field ∈ operand.fieldRefs,
          field.qualifier = side.qualifier) ∧
        ∀ document, session.document query = .ok document → query.mode ≠ .linksRecursive →
          (∀ side, (document.child? side.part).isSome = true ↔ sides.operands side ≠ []) ∧
          ∀ reading : Side → Element → Bool, (∀ side, Element.Consistent (reading side)) →
            ∃ value, document.linkTruth? reading = some value ∧
              query.linkVerdict? session reading = some value := by
  have hoperands := Session.operands_of_optimize (Compiler.optimize_eq_ok hsession hquery)
  have hsplit : Sides.ofFilter query.filter = Sides.ofOperands query.operands := by
    unfold Sides.ofFilter Select.operands
    cases query.filter <;> rfl
  obtain ⟨culprit, hculprit, hbad, hfail⟩ | ⟨hmixed, sides, hsides, hfilter⟩ :=
    Session.ofOperands_eq hlink fun operand hoperand => (hoperands operand hoperand).1
  · rw [hsplit, hfail]
    refine ⟨⟨fun _ => ⟨culprit, hculprit, hbad⟩, fun _ => ⟨_, rfl⟩⟩, ?_, nofun⟩
    intro error herror
    exact ⟨culprit, hculprit, hbad, (Except.error.inj herror).symm⟩
  · refine ⟨⟨?_, ?_⟩, ?_, ?_⟩
    · rintro ⟨error, herror⟩
      rw [hsplit, hsides] at herror
      cases herror
    · rintro ⟨operand, hoperand, hbad⟩
      exact absurd hbad (hmixed operand hoperand)
    · intro error herror
      rw [hsplit, hsides] at herror
      cases herror
    · intro found hfound
      have hsame : found = sides := by
        rw [hsplit, hsides] at hfound
        exact (Except.ok.inj hfound).symm
      subst hsame
      refine ⟨hfilter, ?_, ?_⟩
      · intro side operand hoperand field hfield
        rw [hfilter side] at hoperand
        obtain ⟨hmem, hside⟩ := List.mem_filter.mp hoperand
        rw [Session.qualifier_of_knows hlink ((hoperands operand hmem).1 field hfield),
          Session.fieldSide_of_not_mixed (hmixed operand hmem) field hfield,
          beq_iff_eq.mp hside]
      · intro document hdocument hmode
        have hdocument : session.linkDocument query = .ok document := by
          rwa [Session.document, if_pos hlink] at hdocument
        constructor
        · intro side
          obtain ⟨others, parts, hothers, hparts⟩ :=
            Session.linkDocument_eq_ok hmode hdocument
          rw [hfound] at hothers
          cases hothers
          rw [(hparts side).2]
          obtain ⟨hnone, hempty⟩ | ⟨condition, hsome, hnonempty, -⟩ :=
            Session.part?_eq_ok (hparts side).1
          · simp [hnone, hempty]
          · simp [hsome, hnonempty]
        · intro reading hreading
          exact Session.linkTruth?_of_linkDocument hmode
            (fun operand hoperand => (hoperands operand hoperand).2) hmixed hfound hfilter
            hdocument hreading

/-- A link query with operands about the source, the link and the target, one of
them a choice below a negation. -/
theorem Compiler.linkSides_of_negated_choice :
    ∃ (compiler : Compiler) (text : String) (session : Session) (query : Select) (sides : Sides)
        (document : Element),
      compiler.session = .ok session ∧ compiler.optimize text = .ok query ∧
      query.isLinkQuery = true ∧ query.mode ≠ .linksRecursive ∧
      Sides.ofFilter query.filter = .ok sides ∧ session.document query = .ok document ∧
      (∀ side, (document.child? side.part).isSome = true ↔ sides.operands side ≠ []) ∧
      (∀ operand ∈ sides.target, ∀ field ∈ operand.fieldRefs,
        field.qualifier = some Session.targetQualifier) ∧
      ∃ value, document.linkTruth? (fun _ => Element.denials) = some value ∧
        query.linkVerdict? session (fun _ => Element.denials) = some value := by
  let compiler : Compiler :=
    { catalog := { Catalog.core with linkTypes := [{ id := 2, name := "Child" }] } }
  let text : String := "select * from WorkItemLinks where [Target].Title <> 'a' and " ++
    "State = 'b' and [Link Type] = 'child' and not ([Target].State = 'c' or " ++
    "[Target].State contains 'd') mode (MustContain)"
  have hcompiles : (do
      let session ← compiler.session.toOption
      let query ← (compiler.optimize text).toOption
      guard (query.isLinkQuery && decide (query.mode ≠ .linksRecursive))
      let sides ← (Sides.ofFilter query.filter).toOption
      let document ← (session.document query).toOption
      return (sides.target.length, document.children.length)) = some (2, 3) := by
    decide +kernel
  obtain ⟨session, hsession, hcompiles⟩ := toOption_bind_eq_some_iff.mp hcompiles
  obtain ⟨query, hquery, hcompiles⟩ := toOption_bind_eq_some_iff.mp hcompiles
  obtain ⟨_, hkind, hcompiles⟩ := Option.bind_eq_some_iff.mp hcompiles
  obtain ⟨sides, hsides, hcompiles⟩ := toOption_bind_eq_some_iff.mp hcompiles
  obtain ⟨document, hdocument, -⟩ := toOption_bind_eq_some_iff.mp hcompiles
  obtain ⟨hlink, hmode⟩ : query.isLinkQuery = true ∧ query.mode ≠ .linksRecursive := by
    simpa using guard_eq_some_iff.mp hkind
  obtain ⟨-, -, hsplit⟩ := Compiler.linkSides_of_optimize hsession hquery hlink
  obtain ⟨-, hqualifiers, hparts⟩ := hsplit sides hsides
  obtain ⟨hthere, htruth⟩ := hparts document hdocument hmode
  exact ⟨compiler, text, session, query, sides, document, hsession, hquery, hlink, hmode, hsides,
    hdocument, hthere, hqualifiers .target,
    htruth (fun _ => Element.denials) fun _ => Element.consistent_denials⟩

end TrackerQuery

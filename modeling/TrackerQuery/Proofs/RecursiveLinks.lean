import TrackerQuery.Proofs.BoundAgain
import TrackerQuery.Proofs.LinkSides
import TrackerQuery.Proofs.LinkTypes

/-!
# The link type that a recursive query follows

A recursive query follows one link type of the catalog.  That it is the forward end of
a tree is checked when the query is resolved, on the names that are written in it, while
the link type is read off the simplified filter.  The check therefore covers a link type
that the filter asks for by name, and neither one that a macro names nor one that is left
over once others are excluded.
-/

namespace TrackerQuery

open Xml (Element)

namespace Expr

mutual

/-- The filter asks for the type of the link with `=` and a name that is written in it. -/
def namesLinkType : Expr → Bool
  | .condition _ .equals left right =>
      left.isLinkType && left.qualifier.isNone && right.literal?.isSome
  | .junction _ .and operands => anyNamesLinkType operands
  | _ => false
termination_by structural e => e

def anyNamesLinkType : List Expr → Bool
  | [] => false
  | e :: es => e.namesLinkType || anyNamesLinkType es
termination_by structural es => es

end

/-- The expression holds only where the condition does: it is the condition, or an `and`
one of whose operands asserts it. -/
inductive AssertedBy (c : Expr) : Expr → Prop
  | self : AssertedBy c c
  | operand {m : Mark} {operands : List Expr} {e : Expr} (hmem : e ∈ operands)
      (hasserted : AssertedBy c e) : AssertedBy c (.junction m .and operands)

theorem anyNamesLinkType_iff {es : List Expr} :
    anyNamesLinkType es = true ↔ ∃ e ∈ es, e.namesLinkType = true := by
  induction es with
  | nil => simp [anyNamesLinkType]
  | cons e es ih => simp [anyNamesLinkType, ih]

/-- A filter that names the link type asserts a condition on it. -/
theorem assertedBy_of_namesLinkType {e : Expr} (he : e.namesLinkType = true) :
    ∃ m left right name, (condition m .equals left right).AssertedBy e ∧
      left.isLinkType = true ∧ left.qualifier = none ∧ right.literal? = some name := by
  induction e with
  | condition m op left right =>
      cases op with
      | equals =>
          rw [namesLinkType, Bool.and_eq_true, Bool.and_eq_true] at he
          obtain ⟨⟨hlink, hnone⟩, hname⟩ := he
          obtain ⟨name, hname⟩ := Option.isSome_iff_exists.mp hname
          exact ⟨m, left, right, name, .self, hlink, Option.isNone_iff_eq_none.mp hnone, hname⟩
      | _ => cases he
  | junction m connective operands ih =>
      cases connective with
      | or => cases he
      | and =>
          obtain ⟨e, hmem, he⟩ := anyNamesLinkType_iff.mp he
          obtain ⟨m, left, right, name, hasserted, hrest⟩ := ih e hmem he
          exact ⟨m, left, right, name, .operand hmem hasserted, hrest⟩
  | _ => cases he

end Expr

variable {session : Session} {scope : Scope} {again : Reduction} {m : Mark} {left : FieldRef}
  {right : Expr} {name : String}

namespace Expr

theorem resolved_of_assertedBy {schema : Schema} {c e : Expr} (hasserted : c.AssertedBy e)
    (he : e.Resolved schema scope) : c.Resolved schema scope := by
  induction hasserted with
  | self => exact he
  | operand hmem _ ih => exact ih (allResolved_iff.mp he.1 _ hmem).1

theorem truth?_of_assertedBy {c e : Expr} (hc : c.truth? = none) (hasserted : c.AssertedBy e) :
    e.truth? = none := by
  cases hasserted with
  | self => exact hc
  | operand => rfl

theorem mem_fieldRefs_of_assertedBy {op : Comparison} {e : Expr}
    (hasserted : (condition m op left right).AssertedBy e) : left ∈ e.fieldRefs := by
  induction hasserted with
  | self => simp [fieldRefs]
  | operand hmem _ ih =>
      rw [fieldRefs, fieldRefsOfAll_eq_flatMap]
      exact List.mem_flatMap_of_mem hmem ih

end Expr

theorem Xml.Element.lookup_assign_of_ne {name other : String} (hother : other ≠ name)
    (value : String) (attributes : List (String × String)) :
    (assign name value attributes).lookup other = attributes.lookup other := by
  have hmiss : (other == name) = false := beq_eq_false_iff_ne.mpr hother
  induction attributes with
  | nil => simp [assign, List.lookup_cons, hmiss]
  | cons entry rest ih =>
      rw [assign]
      split
      · rename_i hentry
        rw [List.lookup_cons, List.lookup_cons, beq_iff_eq.mp hentry, hmiss]
      · rw [List.lookup_cons, List.lookup_cons, ih]

namespace Session

/-! ## What simplification leaves of a named link type -/

theorem reduceCondition_linkType {s : Expr} (hleft : left.Resolved session.schema scope)
    (hlink : left.isLinkType = true)
    (hreduce : session.reduceCondition again scope m .equals left right = .ok s) :
    s = .condition m .equals left right := by
  have hid : left.id = some CoreField.linkType := beq_iff_eq.mp hlink
  cases reduced_of_reduceCondition hreduce with
  | choice _ _ hop | emptySearch hop | present _ hop => cases hop
  | project _ _ hproject =>
      rw [hid] at hproject
      cases hproject
  | day _ _ _ htype =>
      obtain ⟨definition, hdefinition, hdate⟩ := definition_of_resolved hleft
      obtain ⟨hsame, -⟩ := definition_eq_ok hdefinition
      rw [hid, Option.some.injEq] at hsame
      exact absurd hsame.symm (type_of_dataType_date (hdate ▸ htype)).1
  | same _ he => exact he

theorem assertedBy_of_reduce {c e s : Expr} (hc : ∀ s, session.reduce again scope c = .ok s → s = c)
    (hasserted : c.AssertedBy e) (hs : session.reduce again scope e = .ok s) : c.AssertedBy s := by
  cases hasserted with
  | self => exact hc s hs ▸ .self
  | operand hmem hoperand =>
      cases hs
      exact .operand hmem hoperand

/-- A condition that simplification leaves alone stays asserted, or the whole is false. -/
theorem assertedBy_of_simplifyWith {c e s : Expr} (hleaf : c.truth? = none)
    (hreduce : ∀ s, session.reduce again scope c = .ok s → s = c)
    (hsimplify : ∀ s, Expr.simplifyWith (session.reduce again) scope c = .ok s → s = c)
    (hasserted : c.AssertedBy e)
    (hs : Expr.simplifyWith (session.reduce again) scope e = .ok s) :
    c.AssertedBy s ∨ ∃ m, s = .truth m false := by
  induction hasserted generalizing s with
  | self => exact .inl (hsimplify s hs ▸ .self)
  | operand hmem _ ih =>
      obtain ⟨kept, hfold, hs⟩ | ⟨-, hs⟩ := Expr.simplifyWith_junction hs
      · obtain ⟨hkept, hall⟩ := Expr.foldOperands_eq_some hfold
        obtain ⟨k, hk, hplace⟩ := hall _ hmem
        have hk : c.AssertedBy k ∧ k ∈ kept := by
          obtain hasserted | ⟨m, rfl⟩ := ih hk
          · rw [Expr.truth?_of_assertedBy hleaf hasserted] at hplace
            exact ⟨hasserted, hplace.resolve_right (by simp)⟩
          · obtain hmem | htruth := hplace
            · cases (hkept _ hmem).1
            · cases htruth
        refine .inl (assertedBy_of_reduce hreduce ?_ hs)
        match kept, hk with
        | [single], ⟨hasserted, hmem⟩ => exact List.mem_singleton.mp hmem ▸ hasserted
        | first :: second :: others, ⟨hasserted, hmem⟩ => exact .operand hmem hasserted
      · cases hs
        exact .inr ⟨_, rfl⟩

/-! ## The side of a named link type -/

/-- An operand that asserts a condition on the link goes to the link. -/
theorem ofOperand_of_assertedBy {op : Comparison} {e : Expr} {side : Side}
    (hasserted : (Expr.condition m op left right).AssertedBy e) (hnone : left.qualifier = none)
    (hside : Side.ofOperand e = .ok side) : side = .link := by
  have hmem : "" ∈ e.qualifiers := by
    rw [Expr.qualifiers_eq_map]
    exact List.mem_map.mpr ⟨left, Expr.mem_fieldRefs_of_assertedBy hasserted, by
      simp [FieldRef.qualifierText, hnone]⟩
  unfold Side.ofOperand at hside
  cases hqualifiers : e.qualifiers with
  | nil =>
      rw [hqualifiers] at hmem
      cases hmem
  | cons first others =>
      simp only [hqualifiers] at hmem hside
      split at hside
      · cases hside
      · rename_i hall
        have hsame : ∀ other ∈ others, other = first := by simpa using hall
        have hfirst : first = "" := by
          rcases List.mem_cons.mp hmem with hfirst | hother
          · exact hfirst.symm
          · exact (hsame "" hother).symm
        subst hfirst
        cases hside
        rfl

theorem mem_link_of_ofOperands {operands : List Expr} {sides : Sides} {e : Expr}
    (hsides : Sides.ofOperands operands = .ok sides) (hmem : e ∈ operands)
    (hlink : ∀ side, Side.ofOperand e = .ok side → side = .link) : e ∈ sides.link := by
  induction operands generalizing sides with
  | nil => cases hmem
  | cons operand rest ih =>
      obtain ⟨side, hside, hsides⟩ := bind_eq_ok_iff.mp hsides
      obtain ⟨others, hothers, hsides⟩ := bind_eq_ok_iff.mp hsides
      cases hsides
      rcases List.mem_cons.mp hmem with rfl | hmem
      · rw [hlink side hside]
        exact List.mem_cons_self
      · have hmem := ih hothers hmem
        cases side with
        | link => exact List.mem_cons_of_mem _ hmem
        | source | target => exact hmem

/-! ## The link type that is read off the filter -/

/-- What all expressions admit, each of them admits. -/
theorem linkTypes_of_mem {operands : List Expr} {types : Option LinkTypeSet} {e : Expr} {t : Int}
    (htypes : session.commonLinkTypes operands = .ok types) (hmem : e ∈ operands)
    (ht : ∀ set ∈ types, t ∈ set) :
    ∃ types, session.linkTypes e = .ok types ∧ ∀ set ∈ types, t ∈ set := by
  induction operands generalizing types with
  | nil => cases hmem
  | cons operand rest ih =>
      rw [commonLinkTypes] at htypes
      obtain ⟨first, hfirst, htypes⟩ := bind_eq_ok_iff.mp htypes
      obtain ⟨others, hothers, htypes⟩ := bind_eq_ok_iff.mp htypes
      cases htypes
      obtain ⟨hfirstSet, hothersSet⟩ := LinkTypeSet.mem_meet_iff.mp ht
      rcases List.mem_cons.mp hmem with rfl | hmem
      · exact ⟨first, hfirst, hfirstSet⟩
      · exact ih hothers hmem hothersSet

theorem named_of_assertedBy {e : Expr} {types : Option LinkTypeSet} {t : Int}
    (hasserted : (Expr.condition m .equals left right).AssertedBy e)
    (hlink : left.isLinkType = true) (htypes : session.linkTypes e = .ok types)
    (ht : ∀ set ∈ types, t ∈ set) : session.namedLinkType? right = some t := by
  induction hasserted generalizing types with
  | self =>
      obtain ⟨hother, -⟩ | ⟨-, id, hnamed, ⟨-, rfl⟩ | ⟨hop, -⟩⟩ := conditionLinkTypes_eq_ok htypes
      · rw [hlink] at hother
        cases hother
      · rw [hnamed, List.mem_singleton.mp (ht _ rfl)]
      · cases hop
  | operand hmem _ ih =>
      obtain ⟨types', htypes', ht'⟩ := linkTypes_of_mem htypes hmem ht
      exact ih htypes' ht'

theorem recursiveLinkType_eq_ok {operands : List Expr} {span : Span} {id : Int}
    (hid : session.recursiveLinkType operands span = .ok id) :
    session.commonLinkTypes operands = .ok (some [id]) := by
  obtain ⟨types, htypes, hid⟩ := bind_eq_ok_iff.mp hid
  split at hid
  · cases hid
    exact htypes
  · cases hid

/-! ## The check of a written name -/

theorem linkTypeEnd_of_verifyLinkType {op : Comparison} {span : Span}
    (hop : op ≠ .notEquals) (hname : right.literal? = some name)
    (hverify : session.verifyLinkType op right span .linksRecursive = .ok ()) :
    ∃ linkEnd, session.catalog.linkTypeEnd? name = some linkEnd ∧ linkEnd.topology = .tree ∧
      linkEnd.isForward = true := by
  rw [verifyLinkType, check_bind_eq_ok_iff] at hverify
  simp only [hname] at hverify
  rw [if_neg (by simp [hop])] at hverify
  cases hfound : session.catalog.linkTypeEnd? name with
  | none => simp [hfound] at hverify
  | some linkEnd => exact ⟨linkEnd, rfl, by simpa [hfound] using hverify.2⟩

/-- The rule for long texts comes before that for link types and admits no `=`. -/
theorem linkTypeEnd_of_resolved
    (hcondition : (Expr.condition m .equals left right).Resolved session.schema scope)
    (hmode : scope.mode = .linksRecursive) (hlink : left.isLinkType = true)
    (hpath : ∀ definition, session.catalog.fieldById? CoreField.linkType = some definition →
      definition.type ≠ .treePath)
    (hname : right.literal? = some name) :
    ∃ linkEnd, session.catalog.linkTypeEnd? name = some linkEnd ∧ linkEnd.topology = .tree ∧
      linkEnd.isForward = true := by
  have hright : ∀ m f, right ≠ .field m f := by
    rintro m f rfl
    cases hname
  have hverify : session.verifyCondition left .equals right m.span scope.mode = .ok () :=
    hcondition.2
  obtain ⟨hcomparison, -⟩ := verifyCondition_eq_ok_iff.mp hverify
  obtain ⟨-, definition, hdefinition, hvalue⟩ :=
    (verifyComparison_eq_ok_iff hright).mp hcomparison
  obtain ⟨-, -, hfield, -⟩ := verifyValue_eq_ok_iff.mp (hvalue (by simp))
  obtain ⟨hid, hfound⟩ := definition_eq_ok hdefinition
  have hid : definition.id = CoreField.linkType := by
    have hleft : left.id = some CoreField.linkType := beq_iff_eq.mp hlink
    rw [hleft, Option.some.injEq] at hid
    exact hid.symm
  have hother : CoreField.linkType ≠ CoreField.teamProject := by decide
  rw [verifyByField, if_neg (hpath definition (hid ▸ hfound))] at hfield
  by_cases hlong : definition.type.isLongText = true
  · rw [if_pos hlong] at hfield
    simp [verifyLongText, hname, check_bind_eq_ok_iff, Comparison.isSearch] at hfield
  · rw [if_neg hlong, if_neg (by simp [hid, hother]), if_pos hid, hmode] at hfield
    exact linkTypeEnd_of_verifyLinkType (by simp) hname hfield

/-! ## The document -/

theorem attribute?_of_setAsOf {query : Select} {root document : Element} {name : String}
    (hname : name ≠ "AsOf") (hset : session.setAsOf query root = .ok document) :
    document.attribute? name = root.attribute? name := by
  obtain rfl | ⟨value, rfl⟩ := setAsOf_eq_ok hset
  · rfl
  · exact Element.lookup_assign_of_ne hname ..

theorem attributes_of_addPart {name : String} {operands : List Expr} {root extended : Element}
    (hadd : session.addPart name operands root = .ok extended) :
    extended.attributes = root.attributes := by
  unfold addPart at hadd
  split at hadd
  · cases hadd
    rfl
  · obtain ⟨condition, -, hadd⟩ := bind_eq_ok_iff.mp hadd
    cases hadd
    rfl

/-- The document follows the link type that is read off the link conditions. -/
theorem recursive_of_linkDocument {query : Select} {document : Element}
    (hmode : query.mode = .linksRecursive)
    (hdocument : session.linkDocument query = .ok document) :
    ∃ sides id, Sides.ofFilter query.filter = .ok sides ∧
      session.recursiveLinkType sides.link query.span = .ok id ∧
      document.attribute? "Recursive" = some (toString id) := by
  unfold linkDocument at hdocument
  split at hdocument
  · cases hdocument
  · obtain ⟨sides, hsides, hdocument⟩ := bind_eq_ok_iff.mp hdocument
    obtain ⟨root, -, hdocument⟩ := bind_eq_ok_iff.mp hdocument
    rw [if_pos hmode] at hdocument
    obtain ⟨id, hid, hdocument⟩ := bind_eq_ok_iff.mp hdocument
    rw [pure_bind] at hdocument
    obtain ⟨extended, htarget, hdocument⟩ := bind_eq_ok_iff.mp hdocument
    refine ⟨sides, id, hsides, hid, ?_⟩
    rw [attribute?_of_setAsOf (by decide) hdocument, Element.attribute?,
      attributes_of_addPart htarget]
    exact Element.lookup_assign ..

/-! ## The query -/

theorem assertedBy_of_simplify {filter s : Expr} (hfilter : filter.Resolved session.schema scope)
    (hasserted : (Expr.condition m .equals left right).AssertedBy filter)
    (hlink : left.isLinkType = true) (hname : right.literal? = some name)
    (hs : session.simplify scope filter = .ok s) :
    (Expr.condition m .equals left right).AssertedBy s ∨ ∃ m, s = .truth m false := by
  obtain ⟨hleft, -⟩ := (Expr.resolved_of_assertedBy hasserted hfilter).1
  have hreduce : ∀ again s, session.reduce again scope (.condition m .equals left right) = .ok s →
      s = .condition m .equals left right := fun _ s => reduceCondition_linkType hleft hlink
  refine assertedBy_of_simplifyWith rfl (hreduce _) (fun s hs => ?_) hasserted hs
  obtain ⟨right', hright, hs⟩ := Expr.simplifyWith_condition hs
  rw [simplifyWith_literal hname] at hright
  cases hright
  exact hreduce _ s hs

/-- The link type that a filter names is the one that is read off its link side. -/
theorem named_of_recursiveLinkType {s : Expr} {sides : Sides} {span : Span} {id : Int}
    (hasserted : (Expr.condition m .equals left right).AssertedBy s ∨ ∃ m, s = .truth m false)
    (hlink : left.isLinkType = true) (hnone : left.qualifier = none)
    (hsides : Sides.ofFilter (some s) = .ok sides)
    (hid : session.recursiveLinkType sides.link span = .ok id) :
    session.namedLinkType? right = some id := by
  have htypes := recursiveLinkType_eq_ok hid
  obtain hasserted | ⟨m, rfl⟩ := hasserted
  · have hoperand : ∃ e ∈ s.conjuncts, (Expr.condition m .equals left right).AssertedBy e := by
      cases hasserted with
      | self => exact ⟨_, List.mem_singleton_self _, .self⟩
      | operand hmem hasserted => exact ⟨_, hmem, hasserted⟩
    obtain ⟨e, hmem, hasserted⟩ := hoperand
    have hmem : e ∈ sides.link := mem_link_of_ofOperands hsides hmem fun side =>
      ofOperand_of_assertedBy hasserted hnone
    have hall : session.linkTypes (.junction {} .and sides.link) = .ok (some [id]) := htypes
    exact named_of_assertedBy (.operand hmem hasserted) hlink hall (by simp)
  · -- nothing is read off a filter that is false
    cases hsides
    cases htypes

theorem linkEnd_of_recursive {bound query : Select} {document : Element}
    (hresolved : bound.Resolved session.schema)
    (hsimplify : session.simplifyQuery bound = .ok query) (hmode : query.mode = .linksRecursive)
    (hdocument : session.linkDocument query = .ok document) :
    ∃ id, document.attribute? "Recursive" = some (toString id) ∧ id ∈ session.linkTypeIds ∧
      ((∀ definition, session.catalog.fieldById? CoreField.linkType = some definition →
          definition.type ≠ .treePath) →
        ∀ filter ∈ bound.filter, filter.namesLinkType = true →
          ∃ linkEnd ∈ session.catalog.linkTypes, linkEnd.id = id ∧ linkEnd.topology = .tree ∧
            linkEnd.isForward = true) := by
  obtain ⟨sides, id, hsides, hid, hattribute⟩ := recursive_of_linkDocument hmode hdocument
  have hread : session.linkTypes (.junction {} .and sides.link) = .ok (some [id]) :=
    recursiveLinkType_eq_ok hid
  refine ⟨id, hattribute, mem_linkTypeIds_of_linkTypes hread (List.mem_singleton_self id), ?_⟩
  intro hpath filter hfilter hnames
  obtain ⟨m, left, right, name, hasserted, hlink, hnone, hname⟩ :=
    Expr.assertedBy_of_namesLinkType hnames
  obtain ⟨found, asOf, hfound, -, rfl⟩ := Select.simplifyWith_eq_ok hsimplify
  rw [Option.mem_def] at hfilter
  rw [hfilter] at hfound
  obtain ⟨s, hs, rfl⟩ := map_eq_ok_iff.mp hfound
  obtain ⟨hfilterResolved, -⟩ := hresolved.filter filter hfilter
  have hasserted' := assertedBy_of_simplify hfilterResolved hasserted hlink hname hs
  have hnamed := named_of_recursiveLinkType hasserted' hlink hnone hsides hid
  obtain ⟨linkEnd, hend, htree, hforward⟩ := linkTypeEnd_of_resolved
    (Expr.resolved_of_assertedBy hasserted hfilterResolved) hmode hlink hpath hname
  rw [namedLinkType?, hname, Option.bind_some, hend] at hnamed
  exact ⟨linkEnd, List.mem_of_find?_eq_some hend, Option.some.inj hnamed, htree, hforward⟩

end Session

namespace Compiler

/-- A recursive query follows a link type of the catalog.  It is the forward end of a tree
if the filter asks for it by its name. -/
theorem recursive_follows_linkEnd {compiler : Compiler} {text : String} {bound : Select}
    {compiled : Compiled} (hmacros : compiler.settings.serverSideMacros = false)
    (hbind : compiler.bind text = .ok bound) (hcompile : compiler.compile text = .ok compiled)
    (hmode : compiled.query.mode = .linksRecursive) :
    ∃ id, compiled.document.attribute? "Recursive" = some (toString id) ∧
      (∃ linkEnd ∈ compiler.catalog.linkTypes, linkEnd.id = id) ∧
      ((∀ definition, compiler.catalog.fieldById? CoreField.linkType = some definition →
          definition.type ≠ .treePath) →
        ∀ filter ∈ bound.filter, filter.namesLinkType = true →
          ∃ linkEnd ∈ compiler.catalog.linkTypes, linkEnd.id = id ∧ linkEnd.topology = .tree ∧
            linkEnd.isForward = true) := by
  obtain ⟨session, hsession, hcompile⟩ := bind_eq_ok_iff.mp hcompile
  obtain ⟨hcatalog, hsettings⟩ := session_eq_ok hsession
  rw [Session.compile_eq (hsettings ▸ hmacros)] at hcompile
  obtain ⟨query, hoptimize, hcompile⟩ := bind_eq_ok_iff.mp hcompile
  obtain ⟨document, hdocument, hcompile⟩ := bind_eq_ok_iff.mp hcompile
  cases hcompile
  obtain ⟨parsed, hparsed, hbound⟩ := (bind_eq_ok_iff_session hsession).mp hbind
  have hsimplify : session.simplifyQuery bound = .ok query := by
    obtain ⟨_, hsame, hoptimize⟩ := bind_eq_ok_iff.mp hoptimize
    cases hparsed.symm.trans hsame
    obtain ⟨_, hsame, hsimplify⟩ := bind_eq_ok_iff.mp hoptimize
    cases hbound.symm.trans hsame
    exact hsimplify
  rw [Session.document, if_pos (by rw [Select.isLinkQuery, hmode]; rfl)] at hdocument
  obtain ⟨id, hattribute, hid, hnamed⟩ := Session.linkEnd_of_recursive
    (Select.resolved_of_bind hbound) hsimplify hmode hdocument
  rw [hcatalog] at hnamed
  rw [Session.linkTypeIds, hcatalog] at hid
  exact ⟨id, hattribute, List.mem_map.mp hid, hnamed⟩

/-- The children of a work item, and their children. -/
theorem recursive_follows_linkEnd_child :
    ∃ bound compiled,
      let compiler : Compiler := { catalog := Session.linked.catalog }
      let text := "select [System.Id] from WorkItemLinks where [Source].[Title] = 'x' " ++
        "and [Link Type] = 'child' and [Comment] <> 'y' mode (Recursive)"
      compiler.bind text = .ok bound ∧ compiler.compile text = .ok compiled ∧
      compiled.query.mode = .linksRecursive ∧
      ∃ id, compiled.document.attribute? "Recursive" = some (toString id) ∧
        ∃ linkEnd ∈ compiler.catalog.linkTypes, linkEnd.id = id ∧ linkEnd.topology = .tree ∧
          linkEnd.isForward = true := by
  let compiler : Compiler := { catalog := Session.linked.catalog }
  let text := "select [System.Id] from WorkItemLinks where [Source].[Title] = 'x' " ++
    "and [Link Type] = 'child' and [Comment] <> 'y' mode (Recursive)"
  have hcompiles : (do
      let bound ← (compiler.bind text).toOption
      let compiled ← (compiler.compile text).toOption
      let filter ← bound.filter
      return (decide (compiled.query.mode = .linksRecursive), filter.namesLinkType)) =
        some (true, true) := by
    decide +kernel
  have hpath : ∀ definition, compiler.catalog.fieldById? CoreField.linkType = some definition →
      definition.type ≠ .treePath := by
    intro definition hfound
    cases hfound
    decide
  obtain ⟨bound, hbound, hcompiles⟩ := toOption_bind_eq_some_iff.mp hcompiles
  obtain ⟨compiled, hcompiled, hcompiles⟩ := toOption_bind_eq_some_iff.mp hcompiles
  obtain ⟨filter, hfilter, hcompiles⟩ := Option.bind_eq_some_iff.mp hcompiles
  obtain ⟨hmode, hnames⟩ := Prod.mk.inj (Option.some.inj hcompiles)
  have hmode := of_decide_eq_true hmode
  obtain ⟨id, hattribute, -, hend⟩ := recursive_follows_linkEnd rfl hbound hcompiled hmode
  exact ⟨bound, compiled, hbound, hcompiled, hmode, id, hattribute,
    hend hpath filter hfilter hnames⟩

/-- A macro can name a link type that is not a tree, and what is left when a link type is
excluded can lead upwards. -/
theorem recursive_follows_other_linkEnd :
    (∃ compiled,
      let compiler : Compiler :=
        { catalog := Session.linked.catalog, context := [("kind", .string "Related")] }
      compiler.compile ("select [System.Id] from WorkItemLinks where [Link Type] = @kind " ++
        "mode (Recursive)") = .ok compiled ∧
      compiled.query.mode = .linksRecursive ∧
      compiled.document.attribute? "Recursive" = some (toString (1 : Int)) ∧
      ∀ linkEnd ∈ compiler.catalog.linkTypes, linkEnd.id = 1 → linkEnd.topology = .network) ∧
    ∃ compiled,
      let compiler : Compiler :=
        { catalog := { Catalog.core with
            linkTypes := [{ id := 2, name := "Child", isForward := true, topology := .tree },
              { id := -2, name := "Parent", topology := .tree }] } }
      compiler.compile ("select [System.Id] from WorkItemLinks where [Link Type] <> 'Child' " ++
        "mode (Recursive)") = .ok compiled ∧
      compiled.query.mode = .linksRecursive ∧
      compiled.document.attribute? "Recursive" = some (toString (-2 : Int)) ∧
      ∀ linkEnd ∈ compiler.catalog.linkTypes, linkEnd.id = -2 → linkEnd.isForward = false := by
  constructor
  · have hcompiles : (do
        let compiler : Compiler :=
          { catalog := Session.linked.catalog, context := [("kind", .string "Related")] }
        let compiled ← (compiler.compile ("select [System.Id] from WorkItemLinks where " ++
          "[Link Type] = @kind mode (Recursive)")).toOption
        return (decide (compiled.query.mode = .linksRecursive),
          compiled.document.attribute? "Recursive")) = some (true, some "1") := by
      decide +kernel
    obtain ⟨compiled, hcompiled, hcompiles⟩ := toOption_bind_eq_some_iff.mp hcompiles
    obtain ⟨hmode, hattribute⟩ := Prod.mk.inj (Option.some.inj hcompiles)
    exact ⟨compiled, hcompiled, of_decide_eq_true hmode, hattribute, by decide +kernel⟩
  · have hcompiles : (do
        let compiler : Compiler :=
          { catalog := { Catalog.core with
              linkTypes := [{ id := 2, name := "Child", isForward := true, topology := .tree },
                { id := -2, name := "Parent", topology := .tree }] } }
        let compiled ← (compiler.compile ("select [System.Id] from WorkItemLinks where " ++
          "[Link Type] <> 'Child' mode (Recursive)")).toOption
        return (decide (compiled.query.mode = .linksRecursive),
          compiled.document.attribute? "Recursive")) = some (true, some "-2") := by
      decide +kernel
    obtain ⟨compiled, hcompiled, hcompiles⟩ := toOption_bind_eq_some_iff.mp hcompiles
    obtain ⟨hmode, hattribute⟩ := Prod.mk.inj (Option.some.inj hcompiles)
    exact ⟨compiled, hcompiled, of_decide_eq_true hmode, hattribute, by decide +kernel⟩

end Compiler

end TrackerQuery

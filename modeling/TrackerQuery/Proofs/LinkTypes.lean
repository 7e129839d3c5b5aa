import TrackerQuery.Compile
import TrackerQuery.Proofs.Reduction

/-!
# The link types that a filter admits

A link query reads the link types it admits off its conditions.  Conditions on other
fields of the link are left open, so the set is one of link types that may be admitted,
and the complement that a `not` takes of it is a set of link types that must be.  The
set therefore holds every link type that is admitted as long as no `not` stands over
conditions of both kinds, and no other link type if there is one kind only.
-/

namespace TrackerQuery

namespace LinkTypeSet

theorem mem_insert_iff {id t : Int} {types : LinkTypeSet} :
    t ∈ LinkTypeSet.insert id types ↔ t = id ∨ t ∈ types := by
  induction types with
  | nil => simp [LinkTypeSet.insert]
  | cons first rest ih =>
      rw [LinkTypeSet.insert]
      split
      · simp
      · split
        · rename_i hfirst
          simp [hfirst]
        · simp only [List.mem_cons, ih]
          exact or_left_comm

theorem mem_ofList_iff {ids : List Int} {t : Int} : t ∈ LinkTypeSet.ofList ids ↔ t ∈ ids := by
  induction ids with
  | nil => simp [LinkTypeSet.ofList]
  | cons id ids ih =>
      rw [LinkTypeSet.ofList, List.foldr_cons, mem_insert_iff, List.mem_cons]
      exact or_congr_right ih

/-- Both sets hold the link type, where a missing set holds all of them. -/
theorem mem_meet_iff {a b : Option LinkTypeSet} {t : Int} :
    (∀ types ∈ meet a b, t ∈ types) ↔ (∀ types ∈ a, t ∈ types) ∧ ∀ types ∈ b, t ∈ types := by
  cases a <;> cases b <;> simp [meet]

theorem mem_of_mem_meet {a b : Option LinkTypeSet} {types : LinkTypeSet} {t : Int}
    (hmeet : meet a b = some types) (ht : t ∈ types) :
    (∃ types, a = some types ∧ t ∈ types) ∨ ∃ types, b = some types ∧ t ∈ types := by
  cases a with
  | none => exact .inr ⟨types, hmeet, ht⟩
  | some first =>
      have hall : ∀ types ∈ meet (some first) b, t ∈ types := by simpa [hmeet]
      exact .inl ⟨first, rfl, (mem_meet_iff.mp hall).1 first rfl⟩

theorem isSome_meet (a b : Option LinkTypeSet) : (meet a b).isSome = (a.isSome || b.isSome) := by
  cases a <;> cases b <;> rfl

end LinkTypeSet

/-! ## Conditions on the link type -/

def FieldRef.isLinkType (field : FieldRef) : Bool :=
  field.id == some CoreField.linkType

namespace Expr

mutual

def asksLinkType : Expr → Bool
  | .condition _ _ left _ => left.isLinkType
  | .junction _ .and operands => anyAsksLinkType operands
  | .not _ operand => operand.asksLinkType
  | _ => false
termination_by structural e => e

def anyAsksLinkType : List Expr → Bool
  | [] => false
  | e :: es => e.asksLinkType || anyAsksLinkType es
termination_by structural es => es

end

mutual

def asksOnlyLinkType : Expr → Bool
  | .condition _ _ left _ => left.isLinkType
  | .junction _ .and operands => !operands.isEmpty && allAskOnlyLinkType operands
  | .not _ operand => operand.asksOnlyLinkType
  | _ => false
termination_by structural e => e

def allAskOnlyLinkType : List Expr → Bool
  | [] => true
  | e :: es => e.asksOnlyLinkType && allAskOnlyLinkType es
termination_by structural es => es

end

mutual

/-- What is read off the expression bounds the link types it admits from above, or else
from below.  A condition on another field bounds them from above only, and a `not` turns
one bound into the other unless nothing below it is on the link type. -/
def boundsLinkTypes (above : Bool) : Expr → Bool
  | .condition _ _ left _ => above || left.isLinkType
  | .junction _ .and operands => allBoundLinkTypes above operands
  | .not _ operand =>
      if above then !operand.asksLinkType || operand.boundsLinkTypes false
      else operand.asksLinkType && operand.boundsLinkTypes true
  | _ => false
termination_by structural e => e

def allBoundLinkTypes (above : Bool) : List Expr → Bool
  | [] => true
  | e :: es => e.boundsLinkTypes above && allBoundLinkTypes above es
termination_by structural es => es

end

theorem allAskOnlyLinkType_iff {es : List Expr} :
    allAskOnlyLinkType es = true ↔ ∀ e ∈ es, e.asksOnlyLinkType = true := by
  induction es with
  | nil => simp [allAskOnlyLinkType]
  | cons e es ih => simp [allAskOnlyLinkType, ih]

theorem allBoundLinkTypes_iff {above : Bool} {es : List Expr} :
    allBoundLinkTypes above es = true ↔ ∀ e ∈ es, e.boundsLinkTypes above = true := by
  induction es with
  | nil => simp [allBoundLinkTypes]
  | cons e es ih => simp [allBoundLinkTypes, ih]

/-- Conditions on the link type alone bound the link types from both sides. -/
theorem bounds_of_asksOnlyLinkType {e : Expr} (he : e.asksOnlyLinkType = true) :
    e.asksLinkType = true ∧ ∀ above, e.boundsLinkTypes above = true := by
  induction e with
  | condition m op left right =>
      exact ⟨he, fun above => by simp [boundsLinkTypes, show left.isLinkType = true from he]⟩
  | junction m connective operands ih =>
      cases connective with
      | or => cases he
      | and =>
          rw [asksOnlyLinkType, Bool.and_eq_true, allAskOnlyLinkType_iff] at he
          obtain ⟨hne, hall⟩ := he
          refine ⟨?_, fun above => ?_⟩
          · match operands with
            | [] => cases hne
            | first :: rest =>
                have hfirst := (ih first List.mem_cons_self (hall first List.mem_cons_self)).1
                simp [asksLinkType, anyAsksLinkType, hfirst]
          · rw [boundsLinkTypes, allBoundLinkTypes_iff]
            exact fun e hmem => (ih e hmem (hall e hmem)).2 above
  | not m operand ih =>
      obtain ⟨hasks, hbounds⟩ := ih he
      exact ⟨hasks, fun above => by cases above <;> simp [boundsLinkTypes, hasks, hbounds]⟩
  | _ => cases he

end Expr

namespace Session

variable {session : Session}

def linkTypeIds (session : Session) : List Int :=
  session.catalog.linkTypes.map LinkTypeEnd.id

theorem mem_linkTypesExcept_iff {types : LinkTypeSet} {t : Int} :
    t ∈ session.linkTypesExcept types ↔ t ∈ session.linkTypeIds ∧ t ∉ types := by
  rw [linkTypesExcept, LinkTypeSet.mem_ofList_iff, List.mem_filter]
  simp [linkTypeIds]

def namedLinkType? (session : Session) (e : Expr) : Option Int :=
  (e.literal?.bind session.catalog.linkTypeEnd?).map LinkTypeEnd.id

theorem linkTypeId_eq_ok_iff {e : Expr} {id : Int} :
    session.linkTypeId e = .ok id ↔ session.namedLinkType? e = some id := by
  unfold linkTypeId namedLinkType?
  cases e.literal?.bind session.catalog.linkTypeEnd? <;> simp

theorem mem_linkTypeIds_of_named {e : Expr} {id : Int}
    (hnamed : session.namedLinkType? e = some id) : id ∈ session.linkTypeIds := by
  obtain ⟨linkEnd, hend, rfl⟩ := Option.map_eq_some_iff.mp hnamed
  obtain ⟨name, -, hfound⟩ := Option.bind_eq_some_iff.mp hend
  exact List.mem_map_of_mem (List.mem_of_find?_eq_some hfound)

/-- A condition on the link type names one, with `=` or `<>`. -/
theorem conditionLinkTypes_eq_ok {op : Comparison} {left : FieldRef} {right : Expr} {span : Span}
    {types : Option LinkTypeSet}
    (htypes : session.conditionLinkTypes op left right span = .ok types) :
    left.isLinkType = false ∧ types = none ∨
    left.isLinkType = true ∧ ∃ id, session.namedLinkType? right = some id ∧
      (op = .equals ∧ types = some [id] ∨
        op = .notEquals ∧ types = some (session.linkTypesExcept [id])) := by
  obtain ⟨definition, hdefinition, htypes⟩ := bind_eq_ok_iff.mp htypes
  obtain ⟨hid, -⟩ := definition_eq_ok hdefinition
  by_cases hlink : definition.id = CoreField.linkType
  · rw [if_neg (not_not_intro hlink)] at htypes
    obtain ⟨id, hnamed, htypes⟩ := bind_eq_ok_iff.mp htypes
    refine .inr ⟨by simp [FieldRef.isLinkType, hid, hlink], id, linkTypeId_eq_ok_iff.mp hnamed, ?_⟩
    cases op with
    | equals =>
        cases htypes
        exact .inl ⟨rfl, rfl⟩
    | notEquals =>
        cases htypes
        exact .inr ⟨rfl, rfl⟩
    | _ => cases htypes
  · rw [if_pos hlink] at htypes
    cases htypes
    exact .inl ⟨by simp [FieldRef.isLinkType, hid, hlink], rfl⟩

/-- Only link types of the catalog are read off a filter. -/
theorem mem_linkTypeIds_of_linkTypes {e : Expr} {types : LinkTypeSet} {t : Int}
    (htypes : session.linkTypes e = .ok (some types)) (ht : t ∈ types) :
    t ∈ session.linkTypeIds := by
  induction e generalizing types with
  | condition m op left right =>
      obtain ⟨-, hnone⟩ | ⟨-, id, hnamed, ⟨-, hsome⟩ | ⟨-, hsome⟩⟩ :=
        conditionLinkTypes_eq_ok htypes
      · cases hnone
      · cases hsome
        rw [List.mem_singleton.mp ht]
        exact mem_linkTypeIds_of_named hnamed
      · cases hsome
        exact (mem_linkTypesExcept_iff.mp ht).1
  | junction m connective operands ih =>
      cases connective with
      | or => cases htypes
      | and =>
          rw [linkTypes] at htypes
          induction operands generalizing types with
          | nil => cases htypes
          | cons e es ihes =>
              rw [commonLinkTypes] at htypes
              obtain ⟨first, hfirst, htypes⟩ := bind_eq_ok_iff.mp htypes
              obtain ⟨rest, hrest, htypes⟩ := bind_eq_ok_iff.mp htypes
              rw [pure_eq_ok_iff] at htypes
              obtain ⟨types, rfl, ht⟩ | ⟨types, rfl, ht⟩ := LinkTypeSet.mem_of_mem_meet htypes ht
              · exact ih e List.mem_cons_self hfirst ht
              · exact ihes (fun e he => ih e (List.mem_cons_of_mem _ he)) ht hrest
  | not m operand ih =>
      rw [linkTypes] at htypes
      obtain ⟨inner, -, htypes⟩ := bind_eq_ok_iff.mp htypes
      obtain ⟨set, -, rfl⟩ := Option.map_eq_some_iff.mp (pure_eq_ok_iff.mp htypes)
      exact (mem_linkTypesExcept_iff.mp ht).1
  | _ => cases htypes

/-! ## What a link of a type satisfies -/

mutual

/-- A link of a type satisfies an expression, where `others` says which conditions on
other fields hold of it. -/
def admits (session : Session) (others : Expr → Bool) (t : Int) : Expr → Bool
  | .condition m op left right =>
      if left.isLinkType then
        match op with
        | .equals => session.namedLinkType? right == some t
        | .notEquals => session.namedLinkType? right != some t
        | _ => false
      else others (.condition m op left right)
  | .junction _ .and operands => admitsAll session others t operands
  | .not _ operand => !admits session others t operand
  | e => others e
termination_by structural e => e

def admitsAll (session : Session) (others : Expr → Bool) (t : Int) : List Expr → Bool
  | [] => true
  | e :: es => admits session others t e && admitsAll session others t es
termination_by structural es => es

end

/-- How link types that are read off an expression compare with those it admits. -/
structure Approximates (session : Session) (others : Expr → Bool) (t : Int) (e : Expr)
    (types : Option LinkTypeSet) : Prop where
  isSome : types.isSome = e.asksLinkType
  above : e.boundsLinkTypes true = true → session.admits others t e = true →
    ∀ set ∈ types, t ∈ set
  below : e.boundsLinkTypes false = true → (∀ set ∈ types, t ∈ set) →
    session.admits others t e = true

variable {others : Expr → Bool} {t : Int}

theorem Approximates.of_iff {e : Expr} {types : Option LinkTypeSet}
    (hsome : types.isSome = e.asksLinkType)
    (hiff : session.admits others t e = true ↔ ∀ set ∈ types, t ∈ set) :
    session.Approximates others t e types :=
  ⟨hsome, fun _ => hiff.mp, fun _ => hiff.mpr⟩

theorem approximates_condition (ht : t ∈ session.linkTypeIds) {m : Mark} {op : Comparison}
    {left : FieldRef} {right : Expr} {types : Option LinkTypeSet}
    (htypes : session.conditionLinkTypes op left right m.span = .ok types) :
    session.Approximates others t (.condition m op left right) types := by
  obtain ⟨hasks, rfl⟩ | ⟨hasks, id, hnamed, ⟨rfl, rfl⟩ | ⟨rfl, rfl⟩⟩ :=
    conditionLinkTypes_eq_ok htypes
  · refine ⟨hasks.symm, fun _ _ => by simp, fun hbounds => ?_⟩
    simp [Expr.boundsLinkTypes, hasks] at hbounds
  · refine .of_iff hasks.symm ?_
    simpa [admits, hasks, hnamed] using eq_comm
  · refine .of_iff hasks.symm ?_
    simpa [admits, hasks, hnamed, mem_linkTypesExcept_iff, ht] using ne_comm

/-- An `and` admits what all its operands admit. -/
theorem approximates_and {m : Mark} {operands : List Expr} {types : Option LinkTypeSet}
    (ih : ∀ e ∈ operands, ∀ types, session.linkTypes e = .ok types →
      session.Approximates others t e types)
    (htypes : session.commonLinkTypes operands = .ok types) :
    session.Approximates others t (.junction m .and operands) types := by
  induction operands generalizing types with
  | nil =>
      cases htypes
      exact .of_iff rfl (by simp [admits, admitsAll])
  | cons e es ihes =>
      rw [commonLinkTypes] at htypes
      obtain ⟨first, hfirst, htypes⟩ := bind_eq_ok_iff.mp htypes
      obtain ⟨rest, hrest, htypes⟩ := bind_eq_ok_iff.mp htypes
      cases htypes
      have he := ih e List.mem_cons_self first hfirst
      have hes := ihes (fun e he => ih e (List.mem_cons_of_mem _ he)) hrest
      refine ⟨?_, fun hbounds hadmits => ?_, fun hbounds hset => ?_⟩
      · rw [LinkTypeSet.isSome_meet, he.isSome, hes.isSome]
        rfl
      · obtain ⟨hbound, hbounds⟩ := (Bool.and_eq_true ..).mp hbounds
        obtain ⟨hfirst, hadmits⟩ := (Bool.and_eq_true ..).mp hadmits
        exact LinkTypeSet.mem_meet_iff.mpr ⟨he.above hbound hfirst, hes.above hbounds hadmits⟩
      · obtain ⟨hbound, hbounds⟩ := (Bool.and_eq_true ..).mp hbounds
        obtain ⟨hset, hsets⟩ := LinkTypeSet.mem_meet_iff.mp hset
        exact (Bool.and_eq_true ..).mpr ⟨he.below hbound hset, hes.below hbounds hsets⟩

/-- A bound from one side becomes one from the other. -/
theorem approximates_not (ht : t ∈ session.linkTypeIds) {m : Mark} {operand : Expr}
    {types : Option LinkTypeSet} (hoperand : session.Approximates others t operand types) :
    session.Approximates others t (.not m operand) (types.map session.linkTypesExcept) := by
  have hsome := hoperand.isSome
  cases types with
  | none =>
      refine ⟨hsome, fun _ _ => by simp, fun hbounds => ?_⟩
      simp [Expr.boundsLinkTypes, ← hsome] at hbounds
  | some types =>
      have hasks : operand.asksLinkType = true := hsome.symm
      refine ⟨hsome, fun hbounds hadmits => ?_, fun hbounds hset => ?_⟩
      · have hbelow : operand.boundsLinkTypes false = true := by
          simpa [Expr.boundsLinkTypes, hasks] using hbounds
        have hrejects : ¬session.admits others t operand = true := by
          simpa [admits] using hadmits
        have hmem : t ∉ types := fun hmem => hrejects (hoperand.below hbelow (by simpa))
        simpa [mem_linkTypesExcept_iff] using ⟨ht, hmem⟩
      · have habove : operand.boundsLinkTypes true = true := by
          simpa [Expr.boundsLinkTypes, hasks] using hbounds
        have hmem : t ∉ types := (mem_linkTypesExcept_iff.mp (hset _ rfl)).2
        have hrejects : ¬session.admits others t operand = true :=
          fun hadmits => hmem (hoperand.above habove hadmits types rfl)
        simpa [admits] using hrejects

theorem approximates_of_linkTypes (ht : t ∈ session.linkTypeIds) {e : Expr}
    {types : Option LinkTypeSet} (htypes : session.linkTypes e = .ok types) :
    session.Approximates others t e types := by
  induction e generalizing types with
  | condition m op left right => exact approximates_condition ht htypes
  | junction m connective operands ih =>
      cases connective with
      | or => cases htypes
      | and => exact approximates_and (fun e he types htypes => ih e he htypes) htypes
  | not m operand ih =>
      rw [linkTypes] at htypes
      obtain ⟨inner, hinner, htypes⟩ := bind_eq_ok_iff.mp htypes
      cases htypes
      exact approximates_not ht (ih hinner)
  | _ => cases htypes

/-- No link type that is admitted is left out of those read off an expression, unless a
`not` stands over conditions on the link type and on other fields; and the two are the
same if every condition is on the link type. -/
theorem linkTypes_bound_admitted {e : Expr} {types : LinkTypeSet}
    (htypes : session.linkTypes e = .ok (some types)) :
    (e.boundsLinkTypes true = true → ∀ others, ∀ t ∈ session.linkTypeIds,
      session.admits others t e = true → t ∈ types) ∧
    (e.asksOnlyLinkType = true → ∀ others t,
      t ∈ types ↔ t ∈ session.linkTypeIds ∧ session.admits others t e = true) := by
  refine ⟨fun hbounds others t ht hadmits => ?_, fun honly others t => ?_⟩
  · exact (approximates_of_linkTypes ht htypes).above hbounds hadmits types rfl
  · obtain ⟨-, hbounds⟩ := Expr.bounds_of_asksOnlyLinkType honly
    constructor
    · intro hmem
      have ht := mem_linkTypeIds_of_linkTypes htypes hmem
      exact ⟨ht, (approximates_of_linkTypes ht htypes).below (hbounds false) (by simpa)⟩
    · rintro ⟨ht, hadmits⟩
      exact (approximates_of_linkTypes ht htypes).above (hbounds true) hadmits types rfl

/-- A tree and a network, and a field for a comment on the link. -/
def linked : Session where
  catalog :=
    let comment : FieldDefinition :=
      { id := 200, name := "Comment", type := .string, usage := .workItemLink,
        referenceName := "System.Links.Comment" }
    { Catalog.core with
      fields := Catalog.core.fields ++ [(comment.referenceName, comment)]
      linkTypes := [{ id := 1, name := "Related" },
        { id := 2, name := "Child", isForward := true, topology := .tree },
        { id := -2, name := "Parent", topology := .tree }] }
  settings := {}
  zone := .utc

def filterLinkTypes? (session : Session) (text : String) : Option (Expr × LinkTypeSet) := do
  let filter ← (← (session.optimize text).toOption).filter
  return (filter, ← (← (session.linkTypes filter).toOption))

theorem linkTypes_of_filterLinkTypes? {text : String} {filter : Expr} {types : LinkTypeSet}
    (hread : session.filterLinkTypes? text = some (filter, types)) :
    session.linkTypes filter = .ok (some types) := by
  obtain ⟨query, -, hread⟩ := toOption_bind_eq_some_iff.mp hread
  obtain ⟨filter', -, hread⟩ := Option.bind_eq_some_iff.mp hread
  obtain ⟨found, hfound, hread⟩ := toOption_bind_eq_some_iff.mp hread
  obtain ⟨types', rfl, hread⟩ := Option.bind_eq_some_iff.mp hread
  cases hread
  exact hfound

/-- One query with a comment, which no `not` puts together with the link type, and one
that is about the link type only. -/
theorem linkTypes_bound_admitted_children :
    ∃ commented plain,
      linked.filterLinkTypes? ("select * from WorkItemLinks where " ++
        "[Link Type] <> 'Related' and not ([Link Type] = 'Parent') and not [Comment] = 'x'") =
          some (commented, [2]) ∧
      linked.filterLinkTypes? ("select * from WorkItemLinks where " ++
        "not ([Link Type] <> 'Related' and [Link Type] <> 'Child')") = some (plain, [1, 2]) ∧
      (∀ others, ∀ t ∈ linked.linkTypeIds, linked.admits others t commented = true → t ∈ [2]) ∧
      ∀ others t, t ∈ [1, 2] ↔ t ∈ linked.linkTypeIds ∧ linked.admits others t plain = true := by
  have hcommented : (linked.filterLinkTypes? ("select * from WorkItemLinks where " ++
      "[Link Type] <> 'Related' and not ([Link Type] = 'Parent') and not [Comment] = 'x'")).map
        (fun read => (read.1.boundsLinkTypes true, read.2)) = some (true, [2]) := by
    decide +kernel
  have hplain : (linked.filterLinkTypes? ("select * from WorkItemLinks where " ++
      "not ([Link Type] <> 'Related' and [Link Type] <> 'Child')")).map
        (fun read => (read.1.asksOnlyLinkType, read.2)) = some (true, [1, 2]) := by
    decide +kernel
  obtain ⟨⟨commented, types⟩, hcommented, hread⟩ := Option.map_eq_some_iff.mp hcommented
  obtain ⟨hbounds, rfl⟩ := Prod.mk.inj hread
  obtain ⟨⟨plain, types⟩, hplain, hread⟩ := Option.map_eq_some_iff.mp hplain
  obtain ⟨honly, rfl⟩ := Prod.mk.inj hread
  exact ⟨commented, plain, hcommented, hplain,
    (linkTypes_bound_admitted (linkTypes_of_filterLinkTypes? hcommented)).1 hbounds,
    (linkTypes_bound_admitted (linkTypes_of_filterLinkTypes? hplain)).2 honly⟩

/-- A child link without the comment satisfies the query, and is not among the link types
that are read off it. -/
theorem linkTypes_miss_admitted :
    ∃ filter,
      linked.filterLinkTypes? ("select * from WorkItemLinks where " ++
        "not ([Link Type] = 'Child' and [Comment] contains 'x')") = some (filter, [-2, 1]) ∧
      linked.linkTypes filter = .ok (some [-2, 1]) ∧
      2 ∈ linked.linkTypeIds ∧ linked.admits (fun _ => false) 2 filter = true ∧
      2 ∉ ([-2, 1] : LinkTypeSet) := by
  have hread : (linked.filterLinkTypes? ("select * from WorkItemLinks where " ++
      "not ([Link Type] = 'Child' and [Comment] contains 'x')")).map
        (fun read => (linked.admits (fun _ => false) 2 read.1, read.2)) =
          some (true, [-2, 1]) := by
    decide +kernel
  obtain ⟨⟨filter, types⟩, hfilter, hread⟩ := Option.map_eq_some_iff.mp hread
  obtain ⟨hadmits, rfl⟩ := Prod.mk.inj hread
  exact ⟨filter, hfilter, linkTypes_of_filterLinkTypes? hfilter, by decide, hadmits, by decide⟩

end Session

end TrackerQuery

import TrackerQuery.Proofs.DocumentTruth
import TrackerQuery.Proofs.XmlReading

/-!
# Documents as XML

The names in a document are fixed, whatever the query, the schema and the context hold, and
no element has a text beside its children.  So a document is well-formed, and the reader
gets it back from its text.
-/

namespace TrackerQuery

open Xml (Element)

namespace Xml

/-- A tag whose names are fixed is well-formed if these names are. -/
theorem Tag.wellFormed_of_names {tag : Tag} (name : String) (names : List String)
    (hname : tag.name = name) (hnames : tag.attributes.map Prod.fst = names)
    (h : (isName name && names.all isName && decide names.Nodup) = true) : tag.WellFormed := by
  simp only [Bool.and_eq_true, List.all_eq_true, decide_eq_true_eq] at h
  obtain ⟨⟨hisName, hall⟩, hunique⟩ := h
  subst hname hnames
  exact ⟨hisName, fun entry hentry => hall entry.1 (List.mem_map_of_mem hentry), hunique⟩

namespace Element

theorem wellFormed_ofText {name : String} (text : String) (hname : isName name = true) :
    (ofText name text).WellFormed :=
  ⟨⟨hname, by simp [ofText], by simp [ofText]⟩, .inr rfl, by simp [ofText]⟩

/-- A well-formed element without a text, which may be given more children. -/
structure Grows (element : Element) : Prop where
  wellFormed : element.WellFormed
  text : element.text = none

/-- A new value does not change the names of the attributes, and a new name comes last. -/
theorem map_fst_assign (name value : String) (attributes : List (String × String)) :
    (assign name value attributes).map Prod.fst =
      if name ∈ attributes.map Prod.fst then attributes.map Prod.fst
      else attributes.map Prod.fst ++ [name] := by
  induction attributes with
  | nil => rfl
  | cons entry rest ih =>
      by_cases hname : entry.1 = name
      · simp [assign, hname]
      · have hother : ¬name = entry.1 := fun h => hname h.symm
        simp only [assign, beq_iff_eq, if_neg hname, List.map_cons, ih, List.mem_cons, hother,
          false_or]
        split <;> rfl

variable {element child : Element}

theorem Grows.push (h : element.Grows) (hchild : child.WellFormed) :
    (element.push child).Grows := by
  obtain ⟨⟨htag, -, hchildren⟩, htext⟩ := h
  exact ⟨⟨htag, .inl htext, List.forall_mem_append.mpr ⟨hchildren, by simpa using hchild⟩⟩, htext⟩

theorem Grows.set (h : element.Grows) {name : String} (value : String)
    (hname : isName name = true) : (element.set name value).Grows := by
  obtain ⟨⟨htag, hcontent, hchildren⟩, htext⟩ := h
  have hnames := map_fst_assign name value element.attributes
  refine ⟨⟨⟨htag.name, fun entry hentry => ?_, ?_⟩, hcontent, hchildren⟩, htext⟩
  · have hmem : entry.1 ∈ (assign name value element.attributes).map Prod.fst :=
      List.mem_map_of_mem hentry
    have hold : ∀ other ∈ element.attributes.map Prod.fst, isName other = true :=
      List.forall_mem_map.mpr htag.attributes
    rw [hnames] at hmem
    split at hmem
    · exact hold _ hmem
    · rcases List.mem_append.mp hmem with hmem | hmem
      · exact hold _ hmem
      · rw [List.mem_singleton.mp hmem]
        exact hname
  · show ((assign name value element.attributes).map Prod.fst).Nodup
    rw [hnames]
    split
    · exact htag.unique
    · rename_i hnew
      exact (List.perm_append_singleton name _).nodup_iff.mpr
        (List.nodup_cons.mpr ⟨hnew, htag.unique⟩)

end Element

end Xml

namespace Session

variable {session : Session}

theorem wellFormed_of_valueElement {column : FieldDefinition} {right : Expr} {x : Element}
    (hx : valueElement column right = .ok x) : x.WellFormed := by
  unfold valueElement at hx
  split at hx <;> cases hx
  · exact Element.wellFormed_ofText _ (by decide)
  · refine Element.wellFormed_ofText _ ?_
    split <;> decide
  · exact Element.wellFormed_ofText _ (by decide)

theorem wellFormed_of_operandElement {left : FieldRef} {column : FieldDefinition} {right : Expr}
    {x : Element} (hx : session.operandElement left column right = .ok x) : x.WellFormed := by
  unfold operandElement at hx
  split at hx
  · obtain ⟨definition, -, hx⟩ := bind_eq_ok_iff.mp hx
    cases hx
    exact Element.wellFormed_ofText _ (by decide)
  · split at hx
    · -- a date
      obtain ⟨text, -, hx⟩ := bind_eq_ok_iff.mp hx
      split at hx
      · cases hx
        exact Element.wellFormed_ofText _ (by decide)
      · obtain ⟨t, -, hx⟩ := bind_eq_ok_iff.mp hx
        cases hx
        exact Element.wellFormed_ofText _ (by decide)
    · obtain ⟨text, -, hx⟩ := bind_eq_ok_iff.mp hx
      cases hx
      exact Element.wellFormed_ofText _ (by decide)
    · exact wellFormed_of_valueElement hx

/-- The element of a condition is well-formed. -/
theorem wellFormed_of_conditionElement {polarity : Polarity} {op : Comparison} {left : FieldRef}
    {right : Expr} {span : Span} {x : Element}
    (hx : session.conditionElement polarity op left right span = .ok x) : x.WellFormed := by
  obtain ⟨definition, column, stored, child, operator, -, -, hchild, -, rfl⟩ :=
    conditionElement_eq_ok_iff.mp hx
  have hwellFormed : child.WellFormed := by
    unfold conditionChild at hchild
    split at hchild
    · obtain ⟨text, -, rfl⟩ := map_eq_ok_iff.mp hchild
      exact Element.wellFormed_ofText text (by decide)
    · exact wellFormed_of_operandElement hchild
  refine ⟨?_, .inl rfl, by simpa [conditionFrame] using hwellFormed⟩
  by_cases hgroup : op = .inGroup
  · refine Xml.Tag.wellFormed_of_names "Expression"
      ["Column", "FieldType", "Operator", "ExpandConstant"] rfl ?_ (by decide)
    simp [conditionFrame, hgroup]
  · refine Xml.Tag.wellFormed_of_names "Expression" ["Column", "FieldType", "Operator"] rfl ?_
      (by decide)
    simp [conditionFrame, hgroup]

theorem wellFormed_of_elements {polarity : Polarity} {es : List Expr} {xs : List Element}
    (ih : ∀ e ∈ es, ∀ x, session.element polarity e = .ok x → x.WellFormed)
    (hxs : session.elements polarity es = .ok xs) : ∀ x ∈ xs, x.WellFormed := by
  induction es generalizing xs with
  | nil =>
      cases hxs
      simp
  | cons e es ihes =>
      obtain ⟨hfirst, hothers⟩ := List.forall_mem_cons.mp ih
      obtain ⟨x, hx, hxs⟩ := bind_eq_ok_iff.mp hxs
      obtain ⟨others, hrest, hxs⟩ := bind_eq_ok_iff.mp hxs
      cases hxs
      exact List.forall_mem_cons.mpr ⟨hfirst x hx, ihes hothers hrest⟩

theorem wellFormed_groupElement (operator : String) {xs : List Element}
    (hxs : ∀ x ∈ xs, x.WellFormed) : (groupElement operator xs).WellFormed :=
  ⟨Xml.Tag.wellFormed_of_names "Group" ["GroupOperator"] rfl rfl (by decide), .inl rfl, hxs⟩

theorem wellFormed_of_element {polarity : Polarity} {e : Expr} {x : Element}
    (hx : session.element polarity e = .ok x) : x.WellFormed := by
  induction e generalizing polarity x with
  | junction m connective operands ih =>
      obtain ⟨xs, hxs, hx⟩ := bind_eq_ok_iff.mp hx
      cases hx
      exact wellFormed_groupElement _ (wellFormed_of_elements (fun e he x hx => ih e he hx) hxs)
  | not m operand ih => exact ih hx
  | ever m operand ih => exact ih hx
  | truth m value =>
      cases hx
      refine ⟨Xml.Tag.wellFormed_of_names "Expression" ["Column", "Operator"] rfl rfl (by decide),
        .inl rfl, ?_⟩
      simpa [truthElement] using Element.wellFormed_ofText "0" (by decide)
  | condition m op left right ih => exact wellFormed_of_conditionElement hx
  | _ => cases hx

theorem wellFormed_of_conjunction {operands : List Expr} {x : Element}
    (hx : session.conjunction operands = .ok x) : x.WellFormed := by
  unfold conjunction at hx
  split at hx
  · exact wellFormed_of_element hx
  · obtain ⟨xs, hxs, hx⟩ := bind_eq_ok_iff.mp hx
    cases hx
    exact wellFormed_groupElement _
      (wellFormed_of_elements (fun _ _ _ hx => wellFormed_of_element hx) hxs)

theorem grows_of_addPart {name : String} {operands : List Expr} {root x : Element}
    (hname : Xml.isName name = true) (hroot : root.Grows)
    (hx : session.addPart name operands root = .ok x) : x.Grows := by
  unfold addPart at hx
  split at hx
  · cases hx
    exact hroot
  · obtain ⟨condition, hcondition, hx⟩ := bind_eq_ok_iff.mp hx
    cases hx
    refine hroot.push ⟨⟨hname, by simp, by simp⟩, .inl rfl, ?_⟩
    simpa using wellFormed_of_conjunction hcondition

theorem wellFormed_of_setAsOf {query : Select} {root x : Element} (hroot : root.Grows)
    (hx : session.setAsOf query root = .ok x) : x.WellFormed := by
  obtain rfl | ⟨value, rfl⟩ := setAsOf_eq_ok hx
  · exact hroot.wellFormed
  · exact (hroot.set _ (by decide)).wellFormed

theorem wellFormed_of_workItemDocument {query : Select} {x : Element}
    (hx : session.workItemDocument query = .ok x) : x.WellFormed := by
  obtain ⟨-, hx⟩ := check_bind_eq_ok_iff.mp hx
  obtain ⟨child, hchild, hx⟩ := bind_eq_ok_iff.mp hx
  refine wellFormed_of_setAsOf ⟨⟨?_, .inl rfl, ?_⟩, rfl⟩ hx
  · exact Xml.Tag.wellFormed_of_names "Query" ["Product"] rfl rfl (by decide)
  · simpa using wellFormed_of_element hchild

/-- The document of a link query is well-formed. -/
theorem wellFormed_of_linkDocument {query : Select} {x : Element}
    (hx : session.linkDocument query = .ok x) : x.WellFormed := by
  unfold linkDocument at hx
  split at hx
  · cases hx
  · rename_i type _
    have hroot : Element.Grows
        { name := "LinksQuery", attributes := [("Product", session.product), ("Type", type)] } :=
      ⟨⟨Xml.Tag.wellFormed_of_names "LinksQuery" ["Product", "Type"] rfl rfl (by decide),
        .inl rfl, by simp⟩, rfl⟩
    obtain ⟨sides, -, hx⟩ := bind_eq_ok_iff.mp hx
    obtain ⟨withSource, hsource, hx⟩ := bind_eq_ok_iff.mp hx
    have hsource := grows_of_addPart (by decide) hroot hsource
    have hrest : ∀ root : Element, root.Grows →
        (session.addPart "RightQuery" sides.target root >>= session.setAsOf query) = .ok x →
        x.WellFormed := by
      intro root hroot hx
      obtain ⟨withTarget, htarget, hx⟩ := bind_eq_ok_iff.mp hx
      exact wellFormed_of_setAsOf (grows_of_addPart (by decide) hroot htarget) hx
    split at hx
    · obtain ⟨id, -, hx⟩ := bind_eq_ok_iff.mp hx
      exact hrest _ (hsource.set _ (by decide)) hx
    · obtain ⟨withLink, hlink, hx⟩ := bind_eq_ok_iff.mp hx
      exact hrest _ (grows_of_addPart (by decide) hsource hlink) hx

theorem wellFormed_of_document {query : Select} {x : Element}
    (hx : session.document query = .ok x) : x.WellFormed := by
  unfold document at hx
  split at hx
  · exact wellFormed_of_linkDocument hx
  · exact wellFormed_of_workItemDocument hx

end Session

theorem wellFormed_textDocument (text : String) (context : Context)
    (isLinkQuery dayPrecision : Bool) :
    (textDocument text context isLinkQuery dayPrecision).WellFormed := by
  have hcontext : ∀ child ∈ context.map contextElement, child.WellFormed :=
    List.forall_mem_map.mpr fun entry _ =>
      ⟨Xml.Tag.wellFormed_of_names "Context" ["Key", "Value", "ValueType"] rfl rfl (by decide),
        .inl rfl, by simp [contextElement]⟩
  refine ⟨?_, .inl rfl, ?_⟩
  · cases isLinkQuery with
    | true => exact Xml.Tag.wellFormed_of_names "LinksQuery" ["Product"] rfl rfl (by decide)
    | false => exact Xml.Tag.wellFormed_of_names "Query" ["Product"] rfl rfl (by decide)
  · refine List.forall_mem_cons.mpr ⟨Element.wellFormed_ofText _ (by decide), ?_⟩
    exact List.forall_mem_cons.mpr ⟨Element.wellFormed_ofText _ (by decide), hcontext⟩

theorem Session.wellFormed_of_compile {session : Session} {text : String} {compiled : Compiled}
    (hcompile : session.compile text = .ok compiled) : compiled.document.WellFormed := by
  unfold compile at hcompile
  split at hcompile
  · obtain ⟨parsed, -, hcompile⟩ := bind_eq_ok_iff.mp hcompile
    obtain ⟨bound, -, hcompile⟩ := bind_eq_ok_iff.mp hcompile
    cases hcompile
    exact wellFormed_textDocument ..
  · obtain ⟨optimized, -, hcompile⟩ := bind_eq_ok_iff.mp hcompile
    obtain ⟨document, hdocument, hcompile⟩ := bind_eq_ok_iff.mp hcompile
    cases hcompile
    exact wellFormed_of_document hdocument

namespace Xml

/-- An element is read back from its text if and only if it is well-formed, whatever the
values of its attributes and its text are; and every document that a query is compiled to
is. -/
theorem read?_render_iff (element : Element) (compiler : Compiler) (text : String) :
    (read? element.render = some element ↔ element.WellFormed) ∧
      ∀ compiled, compiler.compile text = .ok compiled →
        read? compiled.document.render = some compiled.document := by
  refine ⟨⟨wellFormed_of_read?, read?_render⟩, fun compiled hcompile => ?_⟩
  obtain ⟨session, -, hcompile⟩ := bind_eq_ok_iff.mp hcompile
  exact read?_render (Session.wellFormed_of_compile hcompile)

/-- Markup in an attribute, blanks as a text, an empty text and no text at all; and a
document that carries the text of a query. -/
theorem read?_render_markup :
    (∃ element : Element,
      element = ⟨"a", [("k", "<\"'&amp;>")],
        [.ofText "b" " \n", .ofText "c" "", { name := "d" }], none⟩ ∧
      element.WellFormed ∧ read? element.render = some element) ∧
    ∃ compiled, Compiler.compile { settings := { serverSideMacros := true } }
        "select * from WorkItems where [System.Title] = '<a b=\"&\">'" = .ok compiled ∧
      read? compiled.document.render = some compiled.document := by
  have hmarkup : Element.WellFormed ⟨"a", [("k", "<\"'&amp;>")],
      [.ofText "b" " \n", .ofText "c" "", { name := "d" }], none⟩ := by
    refine ⟨Tag.wellFormed_of_names "a" ["k"] rfl rfl (by decide), .inl rfl, ?_⟩
    simp only [List.forall_mem_cons]
    exact ⟨Element.wellFormed_ofText _ (by decide), Element.wellFormed_ofText _ (by decide),
      ⟨Tag.wellFormed_of_names "d" [] rfl rfl (by decide), .inl rfl, by simp⟩, by simp⟩
  have hcompiles : (Compiler.compile { settings := { serverSideMacros := true } }
      "select * from WorkItems where [System.Title] = '<a b=\"&\">'").toOption.isSome = true := by
    decide +kernel
  obtain ⟨compiled, hcompiled⟩ := Option.isSome_iff_exists.mp hcompiles
  obtain ⟨hiff, hdocument⟩ := read?_render_iff ⟨"a", [("k", "<\"'&amp;>")],
    [.ofText "b" " \n", .ofText "c" "", { name := "d" }], none⟩
    { settings := { serverSideMacros := true } }
    "select * from WorkItems where [System.Title] = '<a b=\"&\">'"
  have hcompile := toOption_eq_some_iff.mp hcompiled
  exact ⟨⟨_, rfl, hmarkup, hiff.mpr hmarkup⟩, compiled, hcompile, hdocument compiled hcompile⟩

end Xml

end TrackerQuery

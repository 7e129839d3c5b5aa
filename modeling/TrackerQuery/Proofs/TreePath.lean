import Mathlib.Data.List.Forall2
import Mathlib.Data.List.TakeWhile
import TrackerQuery.Catalog
import TrackerQuery.Proofs.Lexeme

/-!
# Paths in a hierarchy

A path gives the names from a root down to a node, with backslashes between them.  The
descent takes the first sibling of each name and never goes back.  Where siblings have
different names it still reaches every node by its path, in any case and with blanks around
the names; and in every hierarchy what it reaches is a node that the path names.
-/

namespace TrackerQuery

open Scan (IsTrimmed)

/-! ## Segments -/

namespace Text

theorem splitChars_eq_splitOnP (p : Char → Bool) (cs : List Char) :
    splitChars p cs = cs.splitOnP p := by
  induction cs with
  | nil => rw [splitChars, List.splitOnP_nil]
  | cons c cs ih =>
      rw [splitChars, List.splitOnP_cons_eq_if_modifyHead, ih]
      split
      · rfl
      · cases hsplit : cs.splitOnP p with
        | nil => exact absurd hsplit (List.splitOnP_ne_nil p cs)
        | cons part parts => rfl

theorem isTrimmed_map_asciiLower {cs : List Char} :
    IsTrimmed (cs.map asciiLower) ↔ IsTrimmed cs := by
  have hblank : ∀ c, isBlank (asciiLower c) = isBlank c := Scan.apply_asciiLower (by decide)
  simp [IsTrimmed, Scan.Halts, ← List.map_reverse, List.head?_map, hblank]

theorem backslash_mem_map_asciiLower {cs : List Char} :
    '\\' ∈ cs.map asciiLower ↔ '\\' ∈ cs := by
  have hsame : ∀ c, (asciiLower c == '\\') = (c == '\\') :=
    Scan.apply_asciiLower (p := (· == '\\')) (by decide)
  simp only [beq_eq_beq] at hsame
  simp [hsame]

theorem trimChars_append {front cs back : List Char} (hfront : ∀ c ∈ front, isBlank c = true)
    (hback : ∀ c ∈ back, isBlank c = true) :
    trimChars (front ++ (cs ++ back)) = trimChars cs := by
  rw [trimChars, List.dropWhile_append_of_pos hfront, List.dropWhile_append, trimChars]
  split
  · rename_i hcs
    rw [List.isEmpty_iff.mp hcs, List.dropWhile_eq_nil_iff.mpr hback]
  · rw [dropEndWhile, List.reverse_append, List.dropWhile_append_of_pos (by simpa using hback)]
    rfl

/-- The text is the name in some case, with any blanks around it. -/
def Spells (text name : String) : Prop :=
  ∃ front word back : String, text = front ++ (word ++ back) ∧
    (front.toList ++ back.toList).all isBlank = true ∧ sameIgnoringCase name word = true

/-- A text that spells a name is like it in what does not depend on case. -/
theorem Spells.trim {text name : String} (h : Spells text name) (hfree : '\\' ∉ name.toList)
    (htrimmed : IsTrimmed name.toList) :
    '\\' ∉ text.toList ∧ sameIgnoringCase name (trim text) = true := by
  obtain ⟨front, word, back, rfl, hblank, hsame⟩ := h
  obtain ⟨hfront, hback⟩ := List.forall_mem_append.mp (List.all_eq_true.mp hblank)
  have hother : ∀ cs : List Char, (∀ c ∈ cs, isBlank c = true) → '\\' ∉ cs :=
    fun cs hcs hmem => absurd (hcs _ hmem) (by decide)
  have hlower := beq_iff_eq.mp hsame
  rw [← isTrimmed_map_asciiLower, hlower, isTrimmed_map_asciiLower] at htrimmed
  rw [← backslash_mem_map_asciiLower, hlower, backslash_mem_map_asciiLower] at hfree
  constructor
  · simp [hfree, hother _ hfront, hother _ hback]
  · rw [Text.trim, String.toList_append, String.toList_append, trimChars_append hfront hback,
      Scan.trimChars_eq_self_iff.mpr htrimmed, String.ofList_toList, hsame]

theorem forall₂_trim_of_spells {parts names : List String} (h : List.Forall₂ Spells parts names)
    (hplain : ∀ name ∈ names, '\\' ∉ name.toList ∧ IsTrimmed name.toList) :
    (∀ part ∈ parts, '\\' ∉ part.toList) ∧
      List.Forall₂ (sameIgnoringCase · · = true) names (parts.map trim) := by
  induction h with
  | nil => exact ⟨by simp, .nil⟩
  | cons hpart _ ih =>
      obtain ⟨⟨hfree, htrimmed⟩, hothers⟩ := List.forall_mem_cons.mp hplain
      obtain ⟨hfirst, hsame⟩ := hpart.trim hfree htrimmed
      exact ⟨List.forall_mem_cons.mpr ⟨hfirst, (ih hothers).1⟩, .cons hsame (ih hothers).2⟩

end Text

theorem Catalog.segments_intercalate {parts : List String} (hne : parts ≠ [])
    (hfree : ∀ part ∈ parts, '\\' ∉ part.toList) :
    segments ("\\".intercalate parts) = parts.map Text.trim := by
  have hsplit : Text.splitChars (· == '\\') (['\\'].intercalate (parts.map String.toList)) =
      parts.map String.toList := by
    rw [Text.splitChars_eq_splitOnP]
    exact List.splitOn_intercalate '\\' (by simpa using hfree) (by simpa using hne)
  have hseparator : "\\".toList = ['\\'] := rfl
  rw [segments, Text.split, String.toList_intercalate, hseparator, hsplit]
  simp

/-! ## Descent -/

namespace TreeNode

/-- The names lead from one of the nodes down to `node`. -/
inductive Leads : List TreeNode → List String → TreeNode → Prop
  | root {nodes node} (hnode : node ∈ nodes) : Leads nodes [node.name] node
  | child {nodes parent names node} (hparent : parent ∈ nodes)
      (hnames : Leads parent.children names node) : Leads nodes (parent.name :: names) node

/-- On each level the names differ in more than case, and none has a backslash or a blank at
an end. -/
inductive WellNamed : List TreeNode → Prop
  | mk {nodes}
      (distinct : nodes.Pairwise fun a b => Text.sameIgnoringCase a.name b.name = false)
      (plain : ∀ node ∈ nodes, '\\' ∉ node.name.toList ∧ IsTrimmed node.name.toList)
      (children : ∀ node ∈ nodes, WellNamed node.children) : WellNamed nodes

variable {nodes : List TreeNode} {node first : TreeNode} {names words : List String}
  {word : String}

/-- The first node of a name is the only one. -/
theorem named?_eq_some
    (hdistinct : nodes.Pairwise fun a b => Text.sameIgnoringCase a.name b.name = false)
    (hnode : node ∈ nodes) (hname : Text.sameIgnoringCase node.name word = true) :
    named? nodes word = some node := by
  induction nodes with
  | nil => cases hnode
  | cons other rest ih =>
      obtain ⟨hother, hrest⟩ := List.pairwise_cons.mp hdistinct
      rw [named?, List.find?_cons]
      obtain rfl | hmem := List.mem_cons.mp hnode
      · rw [hname]
      · have hdiffers := hother node hmem
        rw [Text.sameIgnoringCase, beq_iff_eq.mp hname] at hdiffers
        rw [Text.sameIgnoringCase, hdiffers]
        exact ih hrest hmem

theorem mem_of_named? (hfirst : named? nodes word = some first) :
    first ∈ nodes ∧ Text.sameIgnoringCase first.name word = true :=
  ⟨List.mem_of_find?_eq_some hfirst,
    List.find?_some (p := fun node : TreeNode => Text.sameIgnoringCase node.name word) hfirst⟩

theorem Leads.plain (h : Leads nodes names node) (hnodes : WellNamed nodes) :
    ∀ name ∈ names, '\\' ∉ name.toList ∧ IsTrimmed name.toList := by
  induction h with
  | root hnode =>
      obtain ⟨-, hplain, -⟩ := hnodes
      simpa using hplain _ hnode
  | child hparent hnames ih =>
      obtain ⟨-, hplain, hchildren⟩ := hnodes
      exact List.forall_mem_cons.mpr ⟨hplain _ hparent, ih (hchildren _ hparent)⟩

/-- The names of a node, in any case, are followed down to it. -/
theorem Leads.descend? (h : Leads nodes names node) (hnodes : WellNamed nodes)
    (hwords : List.Forall₂ (Text.sameIgnoringCase · · = true) names (word :: words)) :
    ∃ first, named? nodes word = some first ∧ first.descend? words = some node := by
  induction h generalizing word words with
  | @root nodes node hnode =>
      obtain ⟨hdistinct, -, -⟩ := hnodes
      obtain ⟨hword, hnone⟩ := List.forall₂_cons.mp hwords
      rw [List.forall₂_nil_left_iff.mp hnone]
      exact ⟨node, named?_eq_some hdistinct hnode hword, rfl⟩
  | @child nodes parent names node hparent hnames ih =>
      obtain ⟨hdistinct, -, hchildren⟩ := hnodes
      obtain ⟨hword, hothers⟩ := List.forall₂_cons.mp hwords
      refine ⟨parent, named?_eq_some hdistinct hparent hword, ?_⟩
      cases hothers with
      | nil => cases hnames
      | cons hnext hothers =>
          obtain ⟨next, hfound, hdescend⟩ := ih (hchildren _ hparent) (.cons hnext hothers)
          rw [TreeNode.descend?, hfound]
          exact hdescend

/-- What the descent reaches is led to by the given names in some case. -/
theorem leads_of_descend? (hfirst : named? nodes word = some first)
    (hdescend : first.descend? words = some node) :
    ∃ names, Leads nodes names node ∧
      List.Forall₂ (Text.sameIgnoringCase · · = true) names (word :: words) := by
  induction words generalizing nodes first word with
  | nil =>
      cases hdescend
      obtain ⟨hmem, hname⟩ := mem_of_named? hfirst
      exact ⟨_, .root hmem, .cons hname .nil⟩
  | cons next words ih =>
      rw [TreeNode.descend?] at hdescend
      split at hdescend
      · rename_i found hfound
        obtain ⟨hmem, hname⟩ := mem_of_named? hfirst
        obtain ⟨names, hleads, hnames⟩ := ih hfound hdescend
        exact ⟨_, .child hmem hleads, .cons hname hnames⟩
      · cases hdescend

end TreeNode

namespace Catalog

open TreeNode (Leads WellNamed)

theorem treeId?_eq_some_iff {catalog : Catalog} {hierarchy : Hierarchy} {path : String} {id : Int} :
    catalog.treeId? hierarchy path = some id ↔ ∃ word words first node,
      segments path = word :: words ∧
      TreeNode.named? (catalog.roots hierarchy) word = some first ∧
      first.descend? words = some node ∧ node.id = id := by
  rw [treeId?]
  split
  · rename_i hnone
    simp [hnone]
  · rename_i word words hsegments
    simp [hsegments, Option.bind_eq_some_iff]

/-- Paths are followed exactly.  In a well-named hierarchy every node is found by its names,
and in any hierarchy a path finds a node whose names are the segments of the path. -/
theorem treeId?_follows_names (catalog : Catalog) (hierarchy : Hierarchy) :
    (WellNamed (catalog.roots hierarchy) → ∀ (names : List String) (node : TreeNode),
      Leads (catalog.roots hierarchy) names node → ∀ parts : List String,
        List.Forall₂ Text.Spells parts names →
          catalog.treeId? hierarchy ("\\".intercalate parts) = some node.id) ∧
    ∀ (path : String) (id : Int), catalog.treeId? hierarchy path = some id →
      ∃ (names : List String) (node : TreeNode), Leads (catalog.roots hierarchy) names node ∧
        node.id = id ∧
        List.Forall₂ (Text.sameIgnoringCase · · = true) names (segments path) := by
  constructor
  · intro hroots names node hleads parts hspells
    obtain ⟨hfree, hsame⟩ := Text.forall₂_trim_of_spells hspells (hleads.plain hroots)
    cases parts with
    | nil =>
        cases hspells
        cases hleads
    | cons part parts =>
        obtain ⟨first, hfirst, hdescend⟩ := hleads.descend? hroots hsame
        have hsegments := segments_intercalate (List.cons_ne_nil part parts) hfree
        exact treeId?_eq_some_iff.mpr ⟨_, _, first, node, hsegments, hfirst, hdescend, rfl⟩
  · intro path id hid
    obtain ⟨word, words, first, node, hsegments, hfirst, hdescend, hid⟩ :=
      treeId?_eq_some_iff.mp hid
    obtain ⟨names, hleads, hnames⟩ := TreeNode.leads_of_descend? hfirst hdescend
    exact ⟨names, node, hleads, hid, hsegments ▸ hnames⟩

/-- Another case and blanks in a path of two names. -/
theorem treeId?_follows_padded_names :
    let catalog : Catalog := { areas := [.mk 10 "Fabrikam" [.mk 11 "Web" [], .mk 12 "Mobile" []]] }
    WellNamed (catalog.roots .area) ∧
      Leads (catalog.roots .area) ["Fabrikam", "Web"] (.mk 11 "Web" []) ∧
      catalog.treeId? .area " fabrikam \\WEB\t" = some 11 ∧
      ∃ names node, Leads (catalog.roots .area) names node ∧ node.id = 11 ∧
        List.Forall₂ (Text.sameIgnoringCase · · = true) names ["fabrikam", "WEB"] := by
  intro catalog
  have hleaf : WellNamed [] := .mk .nil (by simp) (by simp)
  have hroots : WellNamed (catalog.roots .area) := by
    refine .mk (by decide) (by simp only [← Scan.trimChars_eq_self_iff]; decide) ?_
    refine List.forall_mem_singleton.mpr
      (.mk (by decide) (by simp only [← Scan.trimChars_eq_self_iff]; decide) ?_)
    exact List.forall_mem_cons.mpr ⟨hleaf, List.forall_mem_singleton.mpr hleaf⟩
  have hleads : Leads (catalog.roots .area) ["Fabrikam", "Web"] (.mk 11 "Web" []) :=
    .child (.head _) (.root (.head _))
  have hspells : List.Forall₂ Text.Spells [" fabrikam ", "WEB\t"] ["Fabrikam", "Web"] :=
    .cons ⟨" ", "fabrikam", " ", by decide⟩ (.cons ⟨"", "WEB", "\t", by decide⟩ .nil)
  obtain ⟨hcomplete, hsound⟩ := treeId?_follows_names catalog .area
  have hfound := hcomplete hroots _ _ hleads _ hspells
  exact ⟨hroots, hleads, hfound, hsound _ _ hfound⟩

end Catalog

end TrackerQuery

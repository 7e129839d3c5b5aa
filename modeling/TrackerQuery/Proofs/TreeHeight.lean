import TrackerQuery.Proofs.GrammarSound
import TrackerQuery.Proofs.PathWeight
import TrackerQuery.Proofs.SpelledOut

/-!
# The height of a filter

The height of an expression is the number of nodes on a longest path from its top to a
leaf.  Whatever tokens a filter is read from, its height is limited by the nesting that
reading allows, and the filter is resolved to one of the same height.
-/

namespace TrackerQuery

namespace Expr

theorem induction_children {motive : Expr → Prop}
    (h : ∀ e : Expr, (∀ child ∈ e.children, motive child) → motive e) (e : Expr) : motive e := by
  induction e with
  | list m items ih | junction m connective items ih => exact h _ ih
  | condition m op left right ih | not m right ih | ever m right ih =>
      exact h _ (List.forall_mem_singleton.mpr ih)
  | arithmetic m op left right type ihleft ihright =>
      exact h _ (List.forall_mem_cons.mpr ⟨ihleft, List.forall_mem_singleton.mpr ihright⟩)
  | _ => exact h _ nofun

section Weights

variable {weight : Expr → Nat} {es es' : List Expr}

theorem exists_heaviestPath_eq (hes : es ≠ []) :
    ∃ e ∈ es, e.heaviestPath weight = heaviestOf weight es := by
  induction es with
  | nil => exact absurd rfl hes
  | cons first es ih =>
      by_cases hmax : heaviestOf weight es ≤ first.heaviestPath weight
      · exact ⟨first, List.mem_cons_self, (Nat.max_eq_left hmax).symm⟩
      · have hes : es ≠ [] := by
          rintro rfl
          exact hmax (Nat.zero_le _)
        obtain ⟨e, he, hweight⟩ := ih hes
        refine ⟨e, List.mem_cons_of_mem first he, ?_⟩
        rw [hweight, heaviestOf, Nat.max_eq_right (Nat.le_of_not_le hmax)]

theorem heaviestOf_congr
    (h : List.Forall₂ (fun e e' => e'.heaviestPath weight = e.heaviestPath weight) es es') :
    heaviestOf weight es' = heaviestOf weight es := by
  induction h with
  | nil => rfl
  | cons hfirst _ ih => rw [heaviestOf, heaviestOf, hfirst, ih]

end Weights

/-- The nodes from an expression down to one with nothing below it. -/
inductive Path : Expr → List Expr → Prop
  | leaf {e : Expr} (hleaf : e.children = []) : Path e [e]
  | step {e child : Expr} {path : List Expr} (hchild : child ∈ e.children)
      (hpath : Path child path) : Path e (e :: path)

def height (e : Expr) : Nat :=
  e.heaviestPath fun _ => 1

theorem height_eq (e : Expr) : e.height = 1 + heaviestOf (fun _ => 1) e.children :=
  heaviestPath_eq_add e

theorem height_pos (e : Expr) : 0 < e.height := by
  rw [height_eq]
  omega

theorem height_le_iff {e : Expr} {bound : Nat} :
    e.height ≤ bound + 1 ↔ ∀ child ∈ e.children, child.height ≤ bound := by
  rw [height_eq, Nat.add_comm, Nat.add_le_add_iff_right]
  exact ⟨fun h child hchild => Nat.le_trans (heaviestPath_le_heaviestOf hchild) h, heaviestOf_le⟩

theorem height_lt {e child : Expr} (hchild : child ∈ e.children) : child.height < e.height := by
  rw [height_eq e, Nat.add_comm]
  exact Nat.lt_succ_of_le (heaviestPath_le_heaviestOf hchild)

theorem Path.length_le_height {e : Expr} {path : List Expr} (h : Path e path) :
    path.length ≤ e.height := by
  induction h with
  | @leaf e _ => exact e.height_pos
  | step hchild _ ih => exact Nat.lt_of_le_of_lt ih (height_lt hchild)

theorem exists_path_length_eq_height (e : Expr) :
    ∃ path, Path e path ∧ path.length = e.height := by
  induction e using induction_children with
  | h e ih =>
      by_cases hleaf : e.children = []
      · exact ⟨[e], .leaf hleaf, by rw [height_eq, hleaf]; rfl⟩
      · obtain ⟨child, hchild, hheight⟩ : ∃ child ∈ e.children,
            child.height = heaviestOf (fun _ => 1) e.children := exists_heaviestPath_eq hleaf
        obtain ⟨path, hpath, hlength⟩ := ih child hchild
        refine ⟨e :: path, .step hchild hpath, ?_⟩
        rw [List.length_cons, hlength, hheight, height_eq, Nat.add_comm]

/-! ## Reading -/

theorem weighs_one : Weighs (fun _ => 1) 1 where
  leading _ _ _ := Nat.le_refl 1
  other _ _ _ := Nat.le_refl 1
  parens _ _ := Nat.le_refl 3

end Expr

/-- The nesting that reading allows limits the height of a filter. -/
theorem Select.height_le_of_ofTokens {ts : List Token} {query : Select} {filter : Expr}
    (hread : ofTokens ts = .ok query) (hfilter : query.filter = some filter) :
    filter.height ≤ 5 * maxNesting + 5 := by
  obtain ⟨used, left, span, -, -, hquery⟩ := Grammar.exists_query_of_ofTokens hread
  obtain ⟨us, -, hderived⟩ := hquery.exists_filter hfilter
  have hheight := hderived.heaviestPath_le Expr.weighs_one
  exact Nat.le_trans hheight (by omega)

/-! ## Resolving -/

namespace Session

variable {session : Session} {scope : Scope}

/-- The parts of a resolved expression are its parts, each resolved. -/
theorem children_of_bind {e bound : Expr}
    (hbind : (e.bind session.schema scope).toExcept = .ok bound) :
    List.Forall₂ (fun child child' => ∃ scope', (child.bind session.schema scope').toExcept =
      .ok child') e.children bound.children := by
  have hparts := (Attempt.check_eq_ok_iff.mp hbind).1
  cases e with
  | string | number | boolean | truth =>
      cases hparts
      exact .nil
  | var m v =>
      unfold Expr.bindParts Expr.bindVariable at hparts
      split at hparts
      · cases hparts
      · cases hparts
        exact .nil
  | field m f =>
      obtain ⟨found, -, rfl⟩ := Attempt.map_eq_ok_iff.mp hparts
      exact .nil
  | list m items =>
      obtain ⟨items', hitems, rfl⟩ := bind_list_eq_ok_iff.mp hbind
      exact hitems.imp fun item item' h => ⟨scope, h.1⟩
  | junction m connective operands =>
      obtain ⟨operands', hoperands, rfl⟩ := bind_junction_eq_ok_iff.mp hbind
      exact hoperands.imp fun operand operand' h => ⟨scope, h.1⟩
  | condition m op left right =>
      obtain ⟨left', right', -, hright, -, -, rfl⟩ := Expr.bind_condition_eq_ok_iff.mp hbind
      exact .cons ⟨_, hright⟩ .nil
  | arithmetic m op left right type =>
      rw [Expr.toExcept_bindParts_arithmetic] at hparts
      simp only [bind_eq_ok_iff, pure_eq_ok_iff] at hparts
      obtain ⟨left', hleft, right', hright, -, -, rfl⟩ := hparts
      exact .cons ⟨scope, hleft⟩ (.cons ⟨scope, hright⟩ .nil)
  | not m operand | ever m operand =>
      obtain ⟨operand', hoperand, rfl⟩ := Attempt.map_eq_ok_iff.mp hparts
      obtain ⟨hchecked, -⟩ := Attempt.check_eq_ok_iff.mp hoperand
      exact .cons ⟨scope, hchecked⟩ .nil

theorem height_of_bind {e bound : Expr}
    (hbind : (e.bind session.schema scope).toExcept = .ok bound) : bound.height = e.height := by
  induction e using Expr.induction_children generalizing scope bound with
  | h e ih =>
      have hchildren := (List.forall₂_and_left _ _).mpr
        ⟨fun child hchild => @ih child hchild, children_of_bind hbind⟩
      have hheights : Expr.heaviestOf (fun _ => 1) bound.children =
          Expr.heaviestOf (fun _ => 1) e.children := by
        refine Expr.heaviestOf_congr (hchildren.imp ?_)
        rintro child child' ⟨ih, scope', hchild⟩
        exact ih hchild
      rw [Expr.height_eq, Expr.height_eq, hheights]

end Session

end TrackerQuery

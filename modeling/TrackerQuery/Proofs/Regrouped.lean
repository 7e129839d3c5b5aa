import TrackerQuery.Proofs.PrintedTooDeep
import TrackerQuery.Proofs.Unplaced
import TrackerQuery.Proofs.WrittenClause

/-!
# How printed clauses group

Reductions build clauses without a thought for parentheses; printing adds those that are
needed.  The tree that the printed text spells is the clause with these parentheses in
place, except that operands of a connective directly under the same one print side by
side and become operands of the outer one.  Both trees group in the same way.
-/

namespace TrackerQuery

def FieldRef.bare (field : FieldRef) : FieldRef :=
  { field with id := none, type := .unknown, span := {} }

namespace Expr

/-! ## Grouping -/

/-- What an expression adds to the operands of a connective: its own operands, if it has
the same connective. -/
def operandsUnder (connective : Connective) : Expr → List Expr
  | .junction m own operands =>
      if own = connective then operands else [.junction m own operands]
  | e => [e]

mutual

/-- How an expression groups: places, parentheses and what resolving fills in are left
out, and an `and` directly under `and`, or an `or` under `or`, is taken apart. -/
def grouped : Expr → Expr
  | .string _ value => .string {} value
  | .number _ value => .number {} value
  | .boolean _ value => .boolean {} value
  | .truth _ value => .truth {} value
  | .var _ v => .var {} { name := v.name }
  | .field _ f => .field {} f.bare
  | .list _ items => .list {} (groupedAll items)
  | .condition _ op left right => .condition {} op left.bare right.grouped
  | .arithmetic _ op left right _ => .arithmetic {} op left.grouped right.grouped .unknown
  | .junction _ connective operands =>
      .junction {} connective (groupedOperands connective operands)
  | .not _ operand => .not {} operand.grouped
  | .ever _ operand => .ever {} operand.grouped

def groupedAll : List Expr → List Expr
  | [] => []
  | e :: es => e.grouped :: groupedAll es

def groupedOperands (connective : Connective) : List Expr → List Expr
  | [] => []
  | e :: es => e.grouped.operandsUnder connective ++ groupedOperands connective es

end

theorem groupedAll_eq_map (es : List Expr) : groupedAll es = es.map grouped := by
  induction es with
  | nil => rfl
  | cons e es ih => rw [groupedAll, ih, List.map_cons]

theorem groupedOperands_eq_flatMap (connective : Connective) (es : List Expr) :
    groupedOperands connective es = es.flatMap fun e => e.grouped.operandsUnder connective := by
  induction es with
  | nil => rfl
  | cons e es ih => rw [groupedOperands, ih, List.flatMap_cons]

theorem grouped_withMark (e : Expr) (m : Mark) : (e.withMark m).grouped = e.grouped := by
  cases e <;> rfl

/-- A change of the parts that does not change how they group does not change how the
whole groups. -/
theorem grouped_map {f : Expr → Expr} {es : List Expr} (hf : ∀ e ∈ es, (f e).grouped = e.grouped)
    (connective : Connective) :
    groupedAll (es.map f) = groupedAll es ∧
      groupedOperands connective (es.map f) = groupedOperands connective es := by
  constructor
  · rw [groupedAll_eq_map, groupedAll_eq_map, List.map_map]
    exact List.map_congr_left hf
  · rw [groupedOperands_eq_flatMap, groupedOperands_eq_flatMap, List.flatMap_map]
    apply List.flatMap_congr
    intro e he
    rw [hf e he]

theorem grouped_unplaced (e : Expr) : e.unplaced.grouped = e.grouped := by
  induction e with
  | list m items ih =>
      rw [unplaced, unplacedAll_eq_map, grouped, grouped, (grouped_map ih .and).1]
  | junction m connective operands ih =>
      rw [unplaced, unplacedAll_eq_map, grouped, grouped, (grouped_map ih connective).2]
  | condition m op left right ih =>
      rw [unplaced, grouped, grouped, ih]
      rfl
  | arithmetic m op left right type ihleft ihright =>
      rw [unplaced, grouped, grouped, ihleft, ihright]
  | not m operand ih | ever m operand ih => rw [unplaced, grouped, grouped, ih]
  | _ => rfl

theorem grouped_unresolved (e : Expr) : e.unresolved.grouped = e.grouped := by
  induction e with
  | list m items ih =>
      rw [unresolved, unresolvedAll_eq_map, grouped, grouped, (grouped_map ih .and).1]
  | junction m connective operands ih =>
      rw [unresolved, unresolvedAll_eq_map, grouped, grouped, (grouped_map ih connective).2]
  | condition m op left right ih =>
      rw [unresolved, grouped, grouped, ih]
      rfl
  | arithmetic m op left right type ihleft ihright =>
      rw [unresolved, grouped, grouped, ihleft, ihright]
  | not m operand ih | ever m operand ih => rw [unresolved, grouped, grouped, ih]
  | _ => rfl

/-! ## Printed parentheses -/

def enclosed (limit : Precedence) (e : Expr) : Expr :=
  if e.precedence.weaker limit && !e.parens then e.withParens true else e

/-- The operands that an expression prints as among those of a connective. -/
def printedIn (connective : Connective) : Expr → List Expr
  | .junction m own operands =>
      if own = connective ∧ m.parens = false then operands
      else [enclosed (limit connective) (.junction m own operands)]
  | e => [enclosed (limit connective) e]

mutual

/-- The tree that the text of an expression spells. -/
def asPrinted : Expr → Expr
  | .junction m connective operands =>
      .junction m connective (printedOperands connective operands)
  | .not m operand => .not m (enclosed .unary operand.asPrinted)
  | .ever m operand => .ever m (enclosed .unary operand.asPrinted)
  | .condition m op left right => .condition m op left.unresolved right.unresolved
  | e => e

def printedOperands (connective : Connective) : List Expr → List Expr
  | [] => []
  | e :: es => e.asPrinted.printedIn connective ++ printedOperands connective es

end

theorem printedOperands_eq_flatMap (connective : Connective) (es : List Expr) :
    printedOperands connective es = es.flatMap fun e => e.asPrinted.printedIn connective := by
  induction es with
  | nil => rfl
  | cons e es ih => rw [printedOperands, ih, List.flatMap_cons]

@[simp]
theorem precedence_asPrinted (e : Expr) : e.asPrinted.precedence = e.precedence := by
  cases e with
  | junction m connective operands => cases connective <;> rfl
  | _ => rfl

@[simp]
theorem parens_asPrinted (e : Expr) : e.asPrinted.parens = e.parens := by
  cases e <;> rfl

theorem grouped_enclosed (limit : Precedence) (e : Expr) :
    (e.enclosed limit).grouped = e.grouped := by
  unfold enclosed
  split
  · exact grouped_withMark e _
  · rfl

theorem groupedOperands_printedIn (connective : Connective) (e : Expr) :
    groupedOperands connective (e.printedIn connective) = e.grouped.operandsUnder connective := by
  have hsingle : groupedOperands connective [e.enclosed (limit connective)] =
      e.grouped.operandsUnder connective := by
    rw [groupedOperands, groupedOperands, List.append_nil, grouped_enclosed]
  cases e with
  | junction m own operands =>
      rw [printedIn]
      split
      · rename_i hsame
        rw [grouped, operandsUnder, if_pos hsame.1, hsame.1]
      · exact hsingle
  | _ => exact hsingle

/-- Printing does not change how an expression groups. -/
theorem grouped_asPrinted (e : Expr) : e.asPrinted.grouped = e.grouped := by
  induction e with
  | junction m connective operands ih =>
      rw [asPrinted, grouped, grouped, printedOperands_eq_flatMap, groupedOperands_eq_flatMap,
        groupedOperands_eq_flatMap, List.flatMap_assoc]
      congr 1
      apply List.flatMap_congr
      intro e he
      rw [← groupedOperands_eq_flatMap, groupedOperands_printedIn, ih e he]
  | not m operand ih | ever m operand ih =>
      rw [asPrinted, grouped, grouped, grouped_enclosed, ih]
  | condition m op left right =>
      rw [asPrinted, grouped, grouped, grouped_unresolved]
      rfl
  | _ => rfl

/-! ## Clauses that can be printed -/

/-- A clause that can be printed and read back, apart from parentheses and what resolving
fills in. -/
inductive Legible : Expr → Prop
  | condition {m op left right} (h : Written op left right) : Legible (.condition m op left right)
  | not {m operand} (h : Legible operand) : Legible (.not m operand)
  | ever {m operand} (h : Legible operand) : Legible (.ever m operand)
  | junction {m connective operands} (hmany : 2 ≤ operands.length)
      (h : ∀ operand ∈ operands, Legible operand) : Legible (.junction m connective operands)

theorem fits_enclosed (limit : Precedence) (e : Expr) : (e.enclosed limit).Fits limit := by
  unfold enclosed Fits
  split
  · exact .inl (parens_withMark e _)
  · rename_i hplain
    cases hparens : e.parens with
    | true => exact .inl rfl
    | false => simpa [hparens] using hplain

theorem printable_enclosed {limit : Precedence} {e : Expr} (he : e.Printable) :
    (e.enclosed limit).Printable := by
  unfold enclosed
  split
  · exact he.withMark _
  · exact he

theorem precedence_enclosed (limit : Precedence) (e : Expr) :
    (e.enclosed limit).precedence = e.precedence := by
  unfold enclosed
  split
  · exact precedence_withMark e _
  · rfl

theorem eq_junction_of_precedence {connective : Connective} {e : Expr}
    (he : e.precedence = limit connective) : ∃ m operands, e = .junction m connective operands := by
  cases e with
  | junction m own operands =>
      cases own <;> cases connective <;> first | exact ⟨m, operands, rfl⟩ | cases he
  | _ => cases connective <;> cases he

theorem weaker_operandLimit {connective : Connective} {p : Precedence}
    (hlimit : p.weaker (limit connective) = false) (hne : p ≠ limit connective) :
    p.weaker (operandLimit connective) = false := by
  cases connective <;> cases p <;> first | rfl | exact absurd rfl hne | cases hlimit

/-- Only a connective of its own has to be taken apart, or to stand in parentheses, for an
expression to be an operand. -/
theorem fits_operandLimit {connective : Connective} {e : Expr}
    (hown : ∀ m operands, e = .junction m connective operands → m.parens = true) :
    (e.enclosed (limit connective)).Fits (operandLimit connective) := by
  by_cases hsame : e.precedence = limit connective
  · obtain ⟨m, operands, rfl⟩ := eq_junction_of_precedence hsame
    have hmarked := hown m operands rfl
    left
    unfold enclosed
    rw [if_neg (by simp [parens, mark, hmarked])]
    exact hmarked
  · apply (fits_enclosed (limit connective) e).imp_right
    rw [precedence_enclosed]
    exact fun hlimit => weaker_operandLimit hlimit hsame

/-- The operands that an expression prints as can be read back. -/
theorem printable_printedIn {connective : Connective} {e : Expr} (he : e.Printable) :
    e.printedIn connective ≠ [] ∧
      ∀ part ∈ e.printedIn connective, part.Printable ∧ part.Fits (operandLimit connective) := by
  have hsingle (hown : ∀ m operands, e = .junction m connective operands → m.parens = true) :
      [e.enclosed (limit connective)] ≠ [] ∧ ∀ part ∈ [e.enclosed (limit connective)],
        part.Printable ∧ part.Fits (operandLimit connective) := by
    simp only [ne_eq, List.cons_ne_self, not_false_eq_true, List.mem_singleton, forall_eq, true_and]
    exact ⟨printable_enclosed he, fits_operandLimit hown⟩
  cases he with
  | @junction m own operands hmany hall hfits =>
      rw [printedIn]
      split
      · rename_i hsame
        rw [← hsame.1]
        refine ⟨?_, fun part hpart => ⟨hall part hpart, hfits part hpart⟩⟩
        rintro rfl
        cases hmany
      · rename_i hother
        apply hsingle
        rintro _ _ ⟨⟩
        simpa using hother
  | condition | not | ever => exact hsingle nofun

/-- The tree that the text of a clause spells can be printed as it is. -/
theorem printable_asPrinted {e : Expr} (he : e.Legible) : e.asPrinted.Printable := by
  induction he with
  | condition h => exact .condition h.field h.direction h.operator h.right
  | not h ih => exact .not (printable_enclosed ih) (fits_enclosed .unary _)
  | ever h ih => exact .ever (printable_enclosed ih) (fits_enclosed .unary _)
  | @junction m connective operands hmany h ih =>
      have hparts : ∀ part ∈ printedOperands connective operands,
          part.Printable ∧ part.Fits (operandLimit connective) := by
        intro part hpart
        rw [printedOperands_eq_flatMap] at hpart
        obtain ⟨operand, hoperand, hpart⟩ := List.mem_flatMap.mp hpart
        exact (printable_printedIn (ih operand hoperand)).2 part hpart
      refine .junction ?_ (fun part hpart => (hparts part hpart).1)
        (fun part hpart => (hparts part hpart).2)
      calc 2 ≤ operands.length := hmany
        _ ≤ (printedOperands connective operands).length := by
          clear hmany h hparts
          induction operands with
          | nil => exact Nat.le_refl 0
          | cons e es ihes =>
              have hfirst : e.asPrinted.printedIn connective ≠ [] :=
                (printable_printedIn (ih e (by simp))).1
              have hfirst := List.length_pos_of_ne_nil hfirst
              have hothers := ihes fun e he => ih e (by simp [he])
              rw [printedOperands, List.length_append, List.length_cons]
              omega

/-! ## The printed text -/

/-- What resolving fills in is not printed. -/
theorem render_unresolved (e : Expr) : e.unresolved.render = e.render := by
  have hsame : ∀ e : Expr, e.unresolved.precedence = e.precedence ∧
      e.unresolved.parens = e.parens := by
    intro e
    cases e with
    | junction m connective operands => cases connective <;> exact ⟨rfl, rfl⟩
    | _ => exact ⟨rfl, rfl⟩
  have hall : ∀ limit (es : List Expr), (∀ e ∈ es, e.unresolved.render = e.render) →
      renderAll limit (unresolvedAll es) = renderAll limit es := by
    intro limit es hes
    induction es with
    | nil => rfl
    | cons e es ih =>
        obtain ⟨hfirst, hothers⟩ := List.forall_mem_cons.mp hes
        simp only [unresolvedAll, renderAll, enclose, hfirst, hsame, ih hothers]
  induction e with
  | list m items ih => simp only [unresolved, render, hall _ _ ih]
  | junction m connective operands ih => simp only [unresolved, render, hall _ _ ih]
  | condition m op left right ih =>
      simp only [unresolved, render, enclose, ih, hsame]
      rfl
  | arithmetic m op left right type ihleft ihright =>
      simp only [unresolved, render, enclose, ihleft, ihright, hsame]
  | not m operand ih | ever m operand ih => simp only [unresolved, render, enclose, ih, hsame]
  | _ => rfl

theorem render_enclosed (limit : Precedence) (e : Expr) :
    (e.enclosed limit).render = enclose limit e e.render := by
  unfold enclosed enclose
  split
  · rename_i hweaker
    have hparens : e.mark.parens = false := by
      simpa [parens] using (Bool.and_eq_true_iff.mp hweaker).2
    have hopen : e.withMark { span := e.mark.span } = e := by
      calc e.withMark { span := e.mark.span } = e.withMark e.mark := by rw [← hparens]
        _ = e := e.withMark_mark
    rw [withParens, render_withMark, hopen]
    rfl
  · rfl

def operandText (connective : Connective) (e : Expr) : String :=
  enclose (limit connective) e e.render

theorem renderAll_eq_map_operandText (connective : Connective) (es : List Expr) :
    renderAll (limit connective) es = es.map (operandText connective) := by
  induction es with
  | nil => rfl
  | cons e es ih =>
      rw [renderAll, ih]
      rfl

/-- Texts may be put together in groups first. -/
theorem intercalate_flatMap {α : Type} {separator : String} {parts : α → List String}
    {text : α → String} {l : List α} (hparts : ∀ a ∈ l, parts a ≠ [])
    (htext : ∀ a ∈ l, separator.intercalate (parts a) = text a) :
    separator.intercalate (l.flatMap parts) = separator.intercalate (l.map text) := by
  induction l with
  | nil => rfl
  | cons a l ih =>
      obtain ⟨hfirst, hothers⟩ := List.forall_mem_cons.mp hparts
      obtain ⟨hone, hall⟩ := List.forall_mem_cons.mp htext
      cases l with
      | nil => simpa using hone
      | cons b l =>
          have hne : (b :: l).flatMap parts ≠ [] := by
            simp [hothers b (by simp)]
          calc separator.intercalate ((a :: b :: l).flatMap parts)
            _ = separator.intercalate (parts a) ++ separator ++
                separator.intercalate ((b :: l).flatMap parts) := by
              rw [List.flatMap_cons, String.intercalate_append_of_ne_nil hfirst hne]
            _ = text a ++ separator ++ separator.intercalate ((b :: l).map text) := by
              rw [hone, ih hothers hall]
            _ = separator.intercalate ((a :: b :: l).map text) := by
              rw [List.map_cons, List.map_cons, List.map_cons, String.intercalate_cons_cons]

/-- The operands that an expression prints as make up its text. -/
theorem operandText_printedIn (connective : Connective) (e : Expr) :
    (separator connective).intercalate
      ((e.printedIn connective).map (operandText connective)) = operandText connective e := by
  have hsingle : (separator connective).intercalate
      ([e.enclosed (limit connective)].map (operandText connective)) =
        operandText connective e := by
    rw [List.map_singleton, String.intercalate_singleton, operandText,
      enclose_of_fits (fits_enclosed _ e), render_enclosed]
    rfl
  cases e with
  | junction m own operands =>
      rw [printedIn]
      split
      · rename_i hsame
        obtain ⟨rfl, hparens⟩ := hsame
        have hfits : (Expr.junction m own operands).Fits (limit own) := by
          right
          cases own <;> rfl
        rw [operandText, enclose_of_fits hfits, render, hparens, renderAll_eq_map_operandText]
        rfl
      · exact hsingle
  | _ => exact hsingle

/-- The tree that the text of a clause spells has this text. -/
theorem render_asPrinted {e : Expr} (he : e.Legible) : e.asPrinted.render = e.render := by
  induction he with
  | @condition m op left right h => exact render_unresolved (.condition m op left right)
  | not h ih | ever h ih =>
      rw [asPrinted, render, render, enclose_of_fits (fits_enclosed .unary _), render_enclosed, ih,
        enclose, enclose, precedence_asPrinted, parens_asPrinted]
  | @junction m connective operands hmany h ih =>
      rw [asPrinted, render, render, renderAll_eq_map_operandText, renderAll_eq_map_operandText,
        printedOperands_eq_flatMap, List.map_flatMap]
      congr 1
      apply intercalate_flatMap
      · intro operand hoperand
        have hprintable := printable_asPrinted (h operand hoperand)
        simpa using (printable_printedIn hprintable).1
      · intro operand hoperand
        rw [operandText_printedIn, operandText, operandText, ih operand hoperand, enclose, enclose,
          precedence_asPrinted, parens_asPrinted]

/-! ## The nesting of the text -/

/-- Printing puts the expression in parentheses in a place that takes what holds at least
as strongly as `limit`. -/
def printsParens (limit : Precedence) (e : Expr) : Bool :=
  e.parens || e.precedence.weaker limit

mutual

/-- How deep the text of a clause nests in a place that takes what holds at least as
strongly as `limit`: a pair of parentheses is a level, and so is a `not` or an `ever`. -/
def printedNesting (limit : Precedence) : Expr → Nat
  | .junction m connective operands =>
      (printsParens limit (.junction m connective operands)).toNat +
        printedNestingOf (Expr.limit connective) operands
  | .not m operand =>
      (printsParens limit (.not m operand)).toNat + (1 + printedNesting .unary operand)
  | .ever m operand =>
      (printsParens limit (.ever m operand)).toNat + (1 + printedNesting .unary operand)
  | e => (printsParens limit e).toNat

def printedNestingOf (limit : Precedence) : List Expr → Nat
  | [] => 0
  | e :: es => max (printedNesting limit e) (printedNestingOf limit es)

end

theorem printsParens_asPrinted (limit : Precedence) (e : Expr) :
    e.asPrinted.printsParens limit = e.printsParens limit := by
  rw [printsParens, printsParens, parens_asPrinted, precedence_asPrinted]

def openNesting (e : Expr) : Nat :=
  (e.withMark { span := e.mark.span }).nesting

theorem nesting_eq_openNesting (e : Expr) : e.nesting = e.parens.toNat + e.openNesting := by
  rw [openNesting, ← nesting_withMark]
  exact congrArg nesting e.withMark_mark.symm

theorem nesting_enclosed (limit : Precedence) (e : Expr) :
    (e.enclosed limit).nesting = (e.printsParens limit).toNat + e.openNesting := by
  unfold enclosed printsParens
  split
  · rename_i henclosed
    obtain ⟨hweaker, -⟩ := Bool.and_eq_true_iff.mp henclosed
    rw [withParens, nesting_withMark, hweaker, Bool.or_true]
    rfl
  · rename_i hplain
    have hparens : (e.parens || e.precedence.weaker limit) = e.parens := by
      cases hparens : e.parens with
      | true => rfl
      | false => simpa [hparens] using hplain
    rw [hparens, nesting_eq_openNesting]

theorem openNesting_junction (m : Mark) (connective : Connective) (operands : List Expr) :
    (Expr.junction m connective operands).openNesting = heaviestOf levels operands := by
  rw [openNesting, withMark, nesting, heaviestPath]
  exact Nat.zero_add _

theorem heaviestOf_append (weight : Expr → Nat) (es fs : List Expr) :
    heaviestOf weight (es ++ fs) = max (heaviestOf weight es) (heaviestOf weight fs) := by
  induction es with
  | nil => simp [heaviestOf]
  | cons e es ih => rw [List.cons_append, heaviestOf, heaviestOf, ih, Nat.max_assoc]

theorem heaviestOf_printedIn (connective : Connective) (e : Expr) :
    heaviestOf levels (e.printedIn connective) = (e.enclosed (limit connective)).nesting := by
  have hsingle : heaviestOf levels [e.enclosed (limit connective)] =
      (e.enclosed (limit connective)).nesting := Nat.max_zero _
  cases e with
  | junction m own operands =>
      rw [printedIn]
      split
      · rename_i hsame
        obtain ⟨rfl, hparens⟩ := hsame
        have hplain : printsParens (limit own) (.junction m own operands) = false := by
          rw [printsParens, parens, mark, hparens]
          cases own <;> rfl
        rw [nesting_enclosed, hplain, openNesting_junction]
        exact (Nat.zero_add _).symm
      · exact hsingle
  | _ => exact hsingle

/-- The text nests as deep as the tree that it spells. -/
theorem nesting_asPrinted {e : Expr} (he : e.Legible) (limit : Precedence) :
    (e.asPrinted.enclosed limit).nesting = e.printedNesting limit := by
  induction he generalizing limit with
  | @condition m op left right h =>
      have hright := nesting_of_printableRight h.right
      rw [nesting] at hright
      rw [nesting_enclosed, asPrinted, openNesting, withMark, nesting, heaviestPath, hright]
      rfl
  | @not m operand h ih | @ever m operand h ih =>
      rw [nesting_enclosed, asPrinted, openNesting, withMark, nesting, heaviestPath]
      have hoperand := ih .unary
      rw [nesting] at hoperand
      rw [hoperand]
      rfl
  | @junction m connective operands hmany h ih =>
      have hoperands : heaviestOf levels (printedOperands connective operands) =
          printedNestingOf (Expr.limit connective) operands := by
        clear hmany h
        induction operands with
        | nil => rfl
        | cons e es ihes =>
            rw [printedOperands, heaviestOf_append, heaviestOf_printedIn, printedNestingOf,
              ih e (by simp), ihes fun e he => ih e (by simp [he])]
      rw [nesting_enclosed, printsParens_asPrinted, asPrinted, openNesting_junction, hoperands,
        printedNesting]

end Expr

end TrackerQuery

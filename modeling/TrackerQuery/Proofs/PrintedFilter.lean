import TrackerQuery.Proofs.PrintedCondition

/-!
# Reading printed filters

A filter is read back as itself if its printed text stays within the nesting that
reading allows: every pair of parentheses and every `not` or `ever` takes a level
of its own, also where one part has both.
-/

namespace TrackerQuery.Expr

mutual

/-- The largest total weight on a path from the expression to a leaf. -/
def heaviestPath (weight : Expr → Nat) : Expr → Nat
  | .list m items => weight (.list m items) + heaviestOf weight items
  | .condition m op left right => weight (.condition m op left right) + heaviestPath weight right
  | .arithmetic m op left right type =>
      weight (.arithmetic m op left right type) +
        max (heaviestPath weight left) (heaviestPath weight right)
  | .junction m connective operands =>
      weight (.junction m connective operands) + heaviestOf weight operands
  | .not m operand => weight (.not m operand) + heaviestPath weight operand
  | .ever m operand => weight (.ever m operand) + heaviestPath weight operand
  | e => weight e

def heaviestOf (weight : Expr → Nat) : List Expr → Nat
  | [] => 0
  | e :: es => max (heaviestPath weight e) (heaviestOf weight es)

end

def isLeading : Expr → Bool
  | .not .. | .ever .. => true
  | _ => false

def levels (e : Expr) : Nat :=
  e.parens.toNat + e.isLeading.toNat

def nesting (e : Expr) : Nat :=
  e.heaviestPath levels

theorem heaviestPath_le_heaviestOf {weight : Expr → Nat} {e : Expr} {es : List Expr} (he : e ∈ es) :
    e.heaviestPath weight ≤ heaviestOf weight es := by
  induction es with
  | nil => cases he
  | cons e' es ih =>
      rw [heaviestOf]
      obtain rfl | he := List.mem_cons.mp he
      · exact Nat.le_max_left _ _
      · exact Nat.le_trans (ih he) (Nat.le_max_right _ _)

/-! ## Marks -/

theorem withMark_withMark (e : Expr) (m m' : Mark) :
    (e.withMark m).withMark m' = e.withMark m' := by
  cases e <;> rfl

theorem withMark_mark (e : Expr) : e.withMark e.mark = e := by
  cases e <;> rfl

theorem precedence_withMark (e : Expr) (m : Mark) : (e.withMark m).precedence = e.precedence := by
  cases e with
  | junction m' connective operands => cases connective <;> rfl
  | _ => rfl

theorem parens_withMark (e : Expr) (m : Mark) : (e.withMark m).parens = m.parens := by
  cases e <;> rfl

/-- Parentheses are put around the text of the expression without them. -/
theorem render_withMark (e : Expr) (span : Span) (parens : Bool) :
    (e.withMark ⟨span, parens⟩).render = parenthesize parens (e.withMark { span }).render := by
  cases e <;> rfl

theorem nesting_withMark (e : Expr) (span : Span) (parens : Bool) :
    (e.withMark ⟨span, parens⟩).nesting = parens.toNat + (e.withMark { span }).nesting := by
  cases e <;>
    simp [nesting, withMark, heaviestPath, levels, Expr.parens, mark, isLeading, Nat.add_assoc]

end TrackerQuery.Expr

namespace TrackerQuery

open Grammar
open Scan (Reads)

/-! ## Levels of the grammar -/

/-- What is derived where parts hold at least as strongly as `limit`. -/
def Grammar.Level (n : Nat) : (limit : Precedence) → List Token → Expr → Prop
  | .or | .comma => Disjunction (Operand PlainName n)
  | .and => Conjunction (Operand PlainName n)
  | _ => Operand PlainName n

theorem conjunction_of_operand {operand : List Token → Expr → Prop} {ts : List Token} {e : Expr}
    (h : operand ts e) : Conjunction operand ts e :=
  ⟨[e], .one h, rfl⟩

theorem disjunction_of_conjunction {operand : List Token → Expr → Prop} {ts : List Token} {e : Expr}
    (h : Conjunction operand ts e) : Disjunction operand ts e :=
  ⟨[e], .one h, rfl⟩

theorem level_of_operand {n : Nat} (limit : Precedence) {ts : List Token} {e : Expr}
    (h : Operand PlainName n ts e) : Level n limit ts e := by
  cases limit with
  | operand | add | comparison | unary => exact h
  | and => exact conjunction_of_operand h
  | or | comma => exact disjunction_of_conjunction (conjunction_of_operand h)

theorem level_mono {n : Nat} {a b : Precedence} (hab : a.rank ≤ b.rank) {ts : List Token} {e : Expr}
    (h : Level n a ts e) : Level n b ts e := by
  cases a with
  | operand | add | comparison | unary => exact level_of_operand b h
  | and =>
      cases b with
      | operand | add | comparison | unary => simp [Precedence.rank] at hab
      | and => exact h
      | or | comma => exact disjunction_of_conjunction h
  | or | comma =>
      cases b with
      | operand | add | comparison | unary | and => simp [Precedence.rank] at hab
      | or | comma => exact h

theorem operand_of_condition {named : Token → Prop} {n : Nat} {ts : List Token} {e : Expr}
    (h : Condition named ts e) : Operand named n ts e := by
  cases n with
  | zero => exact h
  | succ n => exact .condition h

/-! ## Printed parts -/

theorem toList_render_parens (e : Expr) (span : Span) :
    (e.withMark ⟨span, true⟩).render.toList =
      '(' :: ((e.withMark { span }).render.toList ++ [')']) := by
  rw [Expr.render_withMark]
  simp [Expr.parenthesize, toString]

theorem toList_render_not {e : Expr} (he : e.Fits .unary) (span : Span) :
    (Expr.render (.not { span } e)).toList = (word .not).toList ++ ' ' :: e.render.toList := by
  simp [Expr.render, Expr.parenthesize, enclose_of_fits he, word, toString]

theorem toList_render_ever {e : Expr} (he : e.Fits .unary) (span : Span) :
    (Expr.render (.ever { span } e)).toList = (word .ever).toList ++ ' ' :: e.render.toList := by
  simp [Expr.render, Expr.parenthesize, enclose_of_fits he, word, toString]

theorem toList_render_junction {connective : Connective} {es : List Expr}
    (hes : ∀ e ∈ es, e.Fits (Expr.operandLimit connective)) (span : Span) :
    (Expr.render (.junction { span } connective es)).toList =
      (Expr.separator connective).toList.intercalate (es.map fun e => e.render.toList) := by
  have hlimits : ∀ e ∈ es, e.Fits (Expr.limit connective) := fun e he =>
    (hes e he).mono (by cases connective <;> decide)
  rw [Expr.render, renderAll_eq_map hlimits]
  simp [Expr.parenthesize, String.toList_intercalate, Function.comp_def]

theorem reads_leadingWord (leading : Expr.Leading) :
    Reads (word leading).toList fun ts => ∃ t, ts = [t] ∧ t.isKeyword (word leading) = true := by
  cases leading <;> exact Scan.reads_keyword _ (by decide) (by decide)

def isConnective : Connective → Token → Bool
  | .and => isAnd
  | .or => isOr

theorem reads_connective (connective : Connective) {b : List Char} {Q : List Token → Prop}
    (hb : Reads b Q) :
    Reads ((Expr.separator connective).toList ++ b) fun ts =>
      ∃ t us, ts = t :: us ∧ isConnective connective t = true ∧ Q us := by
  cases connective with
  | and =>
      refine (((Scan.reads_keyword "and" (by decide) (by decide)).spaced hb).blank).imp ?_
      rintro _ ⟨_, us, rfl, ⟨t, rfl, ht⟩, hus⟩
      exact ⟨t, us, rfl, by simp [isConnective, isAnd, ht], hus⟩
  | or =>
      refine (((Scan.reads_keyword "or" (by decide) (by decide)).spaced hb).blank).imp ?_
      rintro _ ⟨_, us, rfl, ⟨t, rfl, ht⟩, hus⟩
      exact ⟨t, us, rfl, by simp [isConnective, isOr, ht], hus⟩

theorem ends_separator (connective : Connective) (b : List Char) :
    Scan.Ends ((Expr.separator connective).toList ++ b) := by
  cases connective <;> exact Scan.ends_cons.mpr (by decide)

/-! ## Reading -/

/-- The expression is read back at its own level if it is not in parentheses. -/
def ReadsOpen (e : Expr) : Prop :=
  ∀ span n, (e.withMark { span }).nesting ≤ n →
    Reads (e.withMark { span }).render.toList
      (Like (Level n e.precedence) Expr.unplaced (e.withMark { span }))

def ReadsBack (e : Expr) : Prop :=
  ∀ n limit, e.nesting ≤ n → e.Fits limit →
    Reads e.render.toList (Like (Level n limit) Expr.unplaced e)

/-- Parentheses cost a level and let the expression stand anywhere. -/
theorem ReadsOpen.readsBack {e : Expr} (he : ReadsOpen e) : ReadsBack e := by
  rw [← e.withMark_mark]
  obtain ⟨span, parens⟩ := e.mark
  intro n limit hn hfits
  cases parens with
  | false =>
      refine (he span n hn).imp ?_
      rintro ts ⟨e', he', heq⟩
      refine ⟨e', level_mono ?_ he', heq⟩
      rw [Expr.Fits, Expr.parens_withMark, Expr.precedence_withMark] at hfits
      simpa [Precedence.weaker] using hfits
  | true =>
      rw [Expr.nesting_withMark] at hn
      obtain ⟨k, rfl⟩ : ∃ k, n = k + 1 := ⟨n - 1, by simp at hn; omega⟩
      rw [toList_render_parens]
      refine (he span k (by simp at hn; omega)).parens.imp ?_
      rintro _ ⟨opening, us, closing, rfl, hopening, ⟨e', he', heq⟩, hclosing⟩
      have hinner : Disjunction (Operand PlainName k) us e' :=
        level_mono (b := .comma) (by cases e.precedence <;> decide) he'
      refine ⟨_, level_of_operand limit (.parens hopening hinner hclosing), ?_⟩
      have hsame := congrArg (Expr.withMark ⟨{}, true⟩) heq
      rw [Expr.unplaced_withMark, Expr.withMark_withMark] at hsame
      rw [Expr.unplaced_withMark, Expr.unplaced_withMark]
      exact hsame

/-- An operator in front of an operand, with a level for the operator. -/
theorem reads_leading {e : Expr} (he : ReadsBack e) (hfits : e.Fits .unary) {n : Nat}
    (hn : 1 + e.nesting ≤ n) (leading : Expr.Leading) :
    Reads ((word leading).toList ++ ' ' :: e.render.toList) fun ts =>
      ∃ t us e', ts = t :: us ∧ e'.unplaced = e.unplaced ∧
        Operand PlainName n (t :: us) ((leading.apply e').withSpan (t.span.cover e'.span)) := by
  obtain ⟨k, rfl⟩ : ∃ k, n = k + 1 := ⟨n - 1, by omega⟩
  refine ((reads_leadingWord leading).spaced (he k .unary (by omega) hfits)).imp ?_
  rintro _ ⟨_, us, rfl, ⟨t, rfl, ht⟩, e', he', heq⟩
  exact ⟨t, us, e', rfl, heq, .leading ht he'⟩

theorem readsOpen_not {m : Mark} {e : Expr} (he : ReadsBack e) (hfits : e.Fits .unary) :
    ReadsOpen (.not m e) := by
  intro span n hn
  rw [Expr.withMark, toList_render_not hfits]
  refine (reads_leading he hfits hn .not).imp ?_
  rintro _ ⟨t, us, e', rfl, heq, hoperand⟩
  refine ⟨_, hoperand, ?_⟩
  simp only [Expr.Leading.apply, Expr.negate, Expr.withSpan, Expr.withMark, Expr.unplaced, heq]
  rfl

theorem readsOpen_ever {m : Mark} {e : Expr} (he : ReadsBack e) (hfits : e.Fits .unary) :
    ReadsOpen (.ever m e) := by
  intro span n hn
  rw [Expr.withMark, toList_render_ever hfits]
  refine (reads_leading he hfits hn .ever).imp ?_
  rintro _ ⟨t, us, e', rfl, heq, hoperand⟩
  refine ⟨_, hoperand, ?_⟩
  simp only [Expr.Leading.apply, Expr.once, Expr.withSpan, Expr.withMark, Expr.unplaced, heq]
  rfl

theorem joined_of_two_le {connective : Connective} {es : List Expr} (hes : 2 ≤ es.length) :
    Expr.joined connective es = Expr.join connective es := by
  match es, hes with
  | _ :: _ :: _, _ => rfl

theorem reads_operands {connective : Connective} {es : List Expr} (hes : es ≠ []) {n : Nat}
    (hn : ∀ e ∈ es, e.nesting ≤ n) (hall : ∀ e ∈ es, ReadsBack e)
    (hfits : ∀ e ∈ es, e.Fits (Expr.operandLimit connective)) :
    Reads ((Expr.separator connective).toList.intercalate (es.map fun e => e.render.toList))
      (Like (Separated (Level n (Expr.operandLimit connective)) (isConnective connective))
        (List.map Expr.unplaced) es) :=
  reads_separated (ends_separator connective) (fun _ _ => reads_connective connective) hes
    fun e he => hall e he n (Expr.operandLimit connective) (hn e he) (hfits e he)

/-- A printed `and` or `or` is read back if its operands are. -/
theorem readsOpen_junction {m : Mark} {connective : Connective} {es : List Expr}
    (hmany : 2 ≤ es.length) (hall : ∀ e ∈ es, ReadsBack e)
    (hfits : ∀ e ∈ es, e.Fits (Expr.operandLimit connective)) :
    ReadsOpen (.junction m connective es) := by
  intro span n hn
  have hne : es ≠ [] := List.ne_nil_of_length_pos (by omega)
  have hnesting : ∀ e ∈ es, e.nesting ≤ n := fun e he =>
    Nat.le_trans (Expr.heaviestPath_le_heaviestOf he) (Nat.le_trans (Nat.le_add_left _ _) hn)
  rw [Expr.withMark, toList_render_junction hfits]
  refine (reads_operands hne hnesting hall hfits).imp ?_
  rintro ts ⟨es', hes', heq⟩
  have hmany' : 2 ≤ es'.length := by
    have hlength := congrArg List.length heq
    simp only [List.length_map] at hlength
    omega
  refine ⟨Expr.joined connective es', ?_, ?_⟩
  · cases connective with
    | and => exact ⟨es', hes', rfl⟩
    | or => exact ⟨es', hes', rfl⟩
  · rw [joined_of_two_le hmany']
    simp only [Expr.join, Expr.unplaced, Expr.unplacedAll_eq_map, heq]
    rfl

theorem readsOpen_of_printable {e : Expr} (he : e.Printable) : ReadsOpen e := by
  induction he with
  | condition hleft hdirection hop hright =>
      intro span n _
      refine (reads_condition hleft hdirection hop hright).imp ?_
      rintro ts ⟨e, he, heq⟩
      exact ⟨e, operand_of_condition he, heq⟩
  | not _ hfits ih => exact readsOpen_not ih.readsBack hfits
  | ever _ hfits ih => exact readsOpen_ever ih.readsBack hfits
  | junction hmany _ hfits ih =>
      exact readsOpen_junction hmany (fun e he => (ih e he).readsBack) hfits

/-- A filter that does not nest too deep is read back as a filter. -/
theorem reads_filter {e : Expr} (he : e.Printable) (hnesting : e.nesting ≤ maxNesting) :
    Reads e.render.toList (Like (Filter PlainName) Expr.unplaced e) :=
  (readsOpen_of_printable he).readsBack maxNesting .comma hnesting
    (.inr (by cases e.precedence <;> decide))

end TrackerQuery

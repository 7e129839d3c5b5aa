import TrackerQuery.Proofs.BareName
import TrackerQuery.Proofs.Printable
import TrackerQuery.Proofs.Unplaced

/-!
# Reading printed conditions

The printed text of names, fields, values, sums and conditions is read as what was
printed, up to places.
-/

namespace TrackerQuery

open Scan (Reads Ends IsWord IsBracketable isNameChar)

/-! ## Names -/

/-- The tokens derive something that is `a` once `erase` has forgotten places. -/
def Grammar.Like {α : Type} (derives : List Token → α → Prop) (erase : α → α) (a : α)
    (ts : List Token) : Prop :=
  ∃ b, derives ts b ∧ erase b = erase a

open Grammar

/-- A printed name is one token that is taken for a name, if what follows does not
go on with it. -/
theorem reads_renderName {name : String} (hname : IsBracketable name.toList) {b : List Char}
    {Q : List Token → Prop} (hb : Reads b Q)
    (hstop : ∀ next, Ends next → Scan.nameTail (b ++ next) = 0) :
    Reads ((renderName name).toList ++ b) fun ts =>
      ∃ t us, ts = t :: us ∧ t.value = name ∧ PlainName t ∧ Q us := by
  rw [renderName]
  split
  · have htext : (s!"[{name}]").toList ++ b = '[' :: ((name.toList ++ [']']) ++ b) := by
      simp [toString]
    rw [htext]
    refine (hb.afterBracketed hname).imp ?_
    rintro _ ⟨span, us, rfl, hus⟩
    exact ⟨_, us, rfl, rfl, .inl rfl, hus⟩
  · rename_i hbare
    obtain ⟨hword, hfree⟩ := needsBrackets_eq_false_iff.mp (Bool.eq_false_iff.mpr hbare)
    have hop := ofSpelling_of_unreserved hword hfree
    obtain ⟨c, tail, hcs, hc, htail⟩ := hword
    have hvalue : name = String.ofList (c :: tail) := by rw [← hcs, String.ofList_toList]
    have hlexeme : ∀ next, Ends next → Scan.lexeme c (tail ++ (b ++ next)) =
        ⟨tail.length, .name, name, none, true⟩ := by
      intro next hnext
      rw [Scan.lexeme_word hc htail (hstop next hnext), ← hvalue,
        isBooleanWord_of_unreserved hfree]
      rfl
    rw [hcs]
    refine (hb.afterLexeme (Scan.isBlank_of_isNameStart hc) hlexeme).imp ?_
    rintro _ ⟨span, us, rfl, hus⟩
    exact ⟨_, us, rfl, rfl, .inr ⟨rfl, hfree, hop⟩, hus⟩

/-- A name by itself. -/
theorem reads_name {name : String} (hname : IsBracketable name.toList) :
    Reads (renderName name).toList fun ts => ∃ t, ts = [t] ∧ t.value = name ∧ PlainName t := by
  have hread := reads_renderName hname Scan.reads_nil fun next hnext =>
    Scan.nameTail_of_ends hnext
  rw [List.append_nil] at hread
  refine hread.imp ?_
  rintro _ ⟨t, _, rfl, hvalue, ht, rfl⟩
  exact ⟨t, rfl, hvalue, ht⟩

/-- A printed field is read back. -/
theorem reads_field {field : FieldRef} (hfield : field.Printable)
    (hdirection : field.direction = .unspecified) :
    Reads field.render.toList (Like (Field PlainName) FieldRef.unplaced field) := by
  have hname := Scan.reads_bracketed hfield.name
  cases hqualifier : field.qualifier with
  | none =>
      have htext : field.render.toList = '[' :: (field.name.toList ++ [']']) := by
        simp [FieldRef.render, hqualifier, hdirection, toString]
      rw [htext]
      refine hname.imp ?_
      rintro _ ⟨span, rfl⟩
      refine ⟨_, .plain (.inl rfl), ?_⟩
      obtain ⟨hid, htype⟩ := hfield.unresolved
      cases field
      simp_all [FieldRef.unplaced]
  | some qualifier =>
      have htext : field.render.toList =
          (renderName qualifier).toList ++ '.' :: '[' :: (field.name.toList ++ [']']) := by
        simp [FieldRef.render, hqualifier, hdirection, toString]
      have hstop : ∀ next, Ends next →
          Scan.nameTail ('.' :: '[' :: (field.name.toList ++ [']']) ++ next) = 0 := by
        have hother : isNameChar '.' = false ∧ isNameChar '[' = false := by decide
        simp [Scan.nameTail, hother]
      rw [htext]
      refine (reads_renderName (hfield.qualifier _ hqualifier) (hname.punctuated (by decide))
        hstop).imp ?_
      rintro _ ⟨q, _, rfl, hq, hplain, dot, _, rfl, hdot, span, rfl⟩
      refine ⟨_, .qualified hplain hdot (.inl rfl), ?_⟩
      obtain ⟨hid, htype⟩ := hfield.unresolved
      cases field
      simp_all [FieldRef.unplaced]

/-! ## Values -/

/-- A printed value is read back. -/
theorem reads_value {e : Expr} (he : e.PrintableValue) :
    Reads e.render.toList (Like Value Expr.unplaced e) := by
  cases he with
  | string =>
      refine (Scan.reads_quoted _).imp ?_
      rintro _ ⟨span, rfl⟩
      exact ⟨_, .string rfl, rfl⟩
  | number hvalue =>
      refine (Scan.reads_number hvalue).imp ?_
      rintro _ ⟨span, rfl⟩
      exact ⟨_, .number rfl, rfl⟩
  | @boolean span value =>
      have hword : ∀ value, IsWord (Expr.renderBool value).toList ∧
          Scan.isBooleanWord (Expr.renderBool value) = true ∧
          Text.sameIgnoringCase (Expr.renderBool value) "true" = value := by
        decide
      obtain ⟨hword, hboolean, hvalue⟩ := hword value
      refine (Scan.reads_word hword).imp ?_
      rintro _ ⟨span, rfl⟩
      rw [hboolean]
      refine ⟨_, .boolean rfl, ?_⟩
      rw [hvalue]
      rfl
  | @var span name hname =>
      have htext : (Expr.render (.var { span } { name })).toList = '@' :: name.toList := by
        simp [Expr.render, Expr.parenthesize, toString]
      rw [htext]
      refine (Scan.reads_variable hname).imp ?_
      rintro _ ⟨span, rfl⟩
      exact ⟨_, .var rfl, rfl⟩

theorem enclose_of_fits {limit : Precedence} {e : Expr} (he : e.Fits limit) (text : String) :
    Expr.enclose limit e text = text := by
  rw [Expr.enclose, if_neg]
  obtain hparens | hweaker := he
  · simp [hparens]
  · simp [hweaker]

theorem fits_of_printableValue {e : Expr} (he : e.PrintableValue) (limit : Precedence) :
    e.Fits limit := by
  cases he <;> exact .inr (by simp [Expr.precedence, Precedence.weaker, Precedence.rank])

theorem fits_of_printableSum {n : Nat} {e : Expr} (he : e.PrintableSum n) : e.Fits .add := by
  cases he with
  | value he => exact fits_of_printableValue he .add
  | arithmetic hop hleft hright => exact .inr rfl

/-- A printed chain of arithmetic is read back. -/
theorem reads_sum {n : Nat} {e : Expr} (he : e.PrintableSum n) :
    Reads e.render.toList (Like (Expression n) Expr.unplaced e) := by
  induction he with
  | value he =>
      refine (reads_value he).imp ?_
      rintro ts ⟨e', he', heq⟩
      exact ⟨e', .value he', heq⟩
  | @arithmetic n span op left right hop hleft hright ih =>
      have htext : (Expr.render (.arithmetic { span } op left right .unknown)).toList =
          left.render.toList ++ ' ' :: (op.render.toList ++ ' ' :: right.render.toList) := by
        simp [Expr.render, Expr.parenthesize, enclose_of_fits (fits_of_printableSum hleft),
          enclose_of_fits (fits_of_printableValue hright _), toString]
      have hsymbol : op.render ∈ ["=", "<>", "<", ">", "<=", ">=", "*", "+", "-"] := by
        cases op <;> simp_all [Arithmetic.render]
      rw [htext]
      refine (ih.spaced ((Scan.reads_symbol hsymbol).spaced (reads_value hright))).imp ?_
      rintro _ ⟨us, _, rfl, ⟨left', hleft', hl⟩, _, vs, rfl, ⟨span, rfl⟩, right', hright', hr⟩
      refine ⟨_, .operation hleft' (.spaced hop (by simp [Token.isOperation]) hright'), ?_⟩
      simp only [Expr.combine, Expr.unplaced, hl, hr]
      rfl

/-! ## Lists -/

/-- Items with a separator between each two. -/
theorem reads_separated {α : Type} {item : List Token → α → Prop} {erase : α → α}
    {separator : Token → Bool} {sep : List Char} {render : α → List Char}
    (hends : ∀ b, Ends (sep ++ b))
    (hsep : ∀ b Q, Reads b Q →
      Reads (sep ++ b) fun ts => ∃ t us, ts = t :: us ∧ separator t = true ∧ Q us)
    {as : List α} (has : as ≠ []) (hitems : ∀ a ∈ as, Reads (render a) (Like item erase a)) :
    Reads (sep.intercalate (as.map render))
      (Like (Separated item separator) (List.map erase) as) := by
  induction as with
  | nil => exact absurd rfl has
  | cons a as ih =>
      have ha := hitems a (by simp)
      cases as with
      | nil =>
          simp only [List.map_cons, List.map_nil, List.intercalate_singleton]
          refine ha.imp ?_
          rintro ts ⟨b, hb, heq⟩
          exact ⟨[b], .one hb, by simp [heq]⟩
      | cons a' as =>
          have hothers := hsep _ _ (ih (by simp) fun b hb => hitems b (by simp [hb]))
          simp only [List.map_cons, List.intercalate_cons_cons, List.append_assoc] at hothers ⊢
          refine (ha.append hothers (hends _)).imp ?_
          rintro _ ⟨us, _, rfl, ⟨b, hb, heq⟩, t, vs, rfl, ht, bs, hbs, heqs⟩
          exact ⟨b :: bs, .more hb ht hbs, by simp [heq, heqs]⟩

/-- Items with a comma between each two. -/
theorem reads_commas {α : Type} {item : List Token → α → Prop} {erase : α → α}
    {render : α → List Char} {as : List α} (has : as ≠ [])
    (hitems : ∀ a ∈ as, Reads (render a) (Like item erase a)) :
    Reads (", ".toList.intercalate (as.map render))
      (Like (Separated item isComma) (List.map erase) as) :=
  reads_separated (fun _ => Scan.ends_cons.mpr (by decide))
    (fun _ _ hb => hb.blank.punctuated (by decide)) has hitems

theorem renderAll_eq_map {limit : Precedence} {es : List Expr} (hes : ∀ e ∈ es, e.Fits limit) :
    Expr.renderAll limit es = es.map Expr.render := by
  induction es with
  | nil => rfl
  | cons e es ih =>
      rw [Expr.renderAll, enclose_of_fits (hes e (by simp)), ih fun e he => hes e (by simp [he])]
      rfl

theorem reads_valueList {span : Span} {items : List Expr} (hitems : items ≠ [])
    (hall : ∀ e ∈ items, e.PrintableSum maxNesting) :
    Reads ('(' :: ((Expr.render (.list { span } items)).toList ++ [')']))
      (Like ValueList Expr.unplaced (.list { span } items)) := by
  have htext : (Expr.render (.list { span } items)).toList =
      ", ".toList.intercalate (items.map fun e => e.render.toList) := by
    rw [Expr.render, renderAll_eq_map fun e he => fits_of_printableSum (hall e he)]
    simp [Expr.parenthesize, String.toList_intercalate, Function.comp_def]
  have hread := reads_commas hitems fun e he => reads_sum (hall e he)
  rw [htext]
  refine hread.parens.imp ?_
  rintro _ ⟨opening, us, closing, rfl, hopening, ⟨items', hitems', heq⟩, hclosing⟩
  refine ⟨_, .mk hopening hitems' hclosing, ?_⟩
  simp only [Expr.unplaced, Expr.unplacedAll_eq_map, heq]
  rfl

/-! ## Conditions -/

/-- A printed comparison is read back. -/
theorem reads_comparison {op : Comparison} (hop : op ≠ .missing) :
    Reads op.render.toList fun ts => Operator false ts op := by
  have hsymbol : ∀ {op : Comparison}, (op.render, op) ∈ Comparison.spellings →
      op.render ∈ ["=", "<>", "<", ">", "<=", ">=", "*", "+", "-"] →
      Reads op.render.toList fun ts => Operator false ts op := by
    intro op hspelled htext
    refine (Scan.reads_symbol htext).imp ?_
    rintro _ ⟨span, rfl⟩
    exact .single (.symbol rfl ⟨_, hspelled, by simp [Text.sameIgnoringCase]⟩)
  have hword : ∀ op : Comparison, (op.render, op) ∈ Comparison.spellings →
      IsWord op.render.toList → Scan.isBooleanWord op.render = false →
      Reads op.render.toList fun ts => ∃ t, ts = [t] ∧ OperatorToken false t op := by
    intro op hspelled hword hother
    refine (Scan.reads_word hword).imp ?_
    rintro _ ⟨span, rfl⟩
    exact ⟨_, rfl, .word (by simp [hother]) ⟨_, hspelled, by simp [Text.sameIgnoringCase]⟩⟩
  cases op with
  | missing => exact absurd rfl hop
  | equals | notEquals | less | greater | lessOrEquals | greaterOrEquals =>
      exact hsymbol (by decide) (by decide)
  | under | oneOf | contains =>
      refine (hword _ (by decide) (by decide) (by decide)).imp ?_
      rintro _ ⟨t, rfl, ht⟩
      exact .single ht
  | containsWords =>
      have hfirst := hword .contains (by decide) (by decide) (by decide)
      have hsecond := Scan.reads_keyword "words" (by decide) (by decide)
      refine (hfirst.spaced hsecond).imp ?_
      rintro _ ⟨_, _, rfl, ⟨t, rfl, ht⟩, u, rfl, hu⟩
      exact .containsWords ht hu
  | inGroup =>
      have hfirst := hword .oneOf (by decide) (by decide) (by decide)
      have hsecond := Scan.reads_keyword "group" (by decide) (by decide)
      refine (hfirst.spaced hsecond).imp ?_
      rintro _ ⟨_, _, rfl, ⟨t, rfl, ht⟩, u, rfl, hu⟩
      exact .inGroup ht hu

def Expr.rightText (op : Comparison) (right : Expr) : List Char :=
  if op = .oneOf then '(' :: (right.render.toList ++ [')']) else right.render.toList

theorem rightText_of_ne {op : Comparison} {right : Expr} (hop : op ≠ .oneOf) :
    right.rightText op = right.render.toList :=
  if_neg hop

theorem ne_oneOf_of_takesOperand {op : Comparison} (hop : takesOperand op = true) :
    op ≠ .oneOf := by
  rintro rfl
  cases hop

/-- A printed right side is read back. -/
theorem reads_rightSide {op : Comparison} {right : Expr} (hright : right.PrintableRight op) :
    Reads (right.rightText op) (Like (RightSide PlainName op) Expr.unplaced right) := by
  cases hright with
  | value hop he =>
      rw [rightText_of_ne (by rintro rfl; simp at hop)]
      refine (reads_value he).imp ?_
      rintro ts ⟨e, he, heq⟩
      obtain rfl | rfl := hop
      · exact ⟨e, .group he, heq⟩
      · exact ⟨e, .path he, heq⟩
  | list hitems hall =>
      refine (reads_valueList hitems hall).imp ?_
      rintro ts ⟨e, he, heq⟩
      exact ⟨e, .list he, heq⟩
  | field hop hfield hdirection =>
      rw [rightText_of_ne (ne_oneOf_of_takesOperand hop)]
      refine (reads_field hfield hdirection).imp ?_
      rintro ts ⟨other, hother, heq⟩
      refine ⟨_, .field hop hother, ?_⟩
      simp only [Expr.ofField, Expr.unplaced, heq]
      rfl
  | sum hop he =>
      rw [rightText_of_ne (ne_oneOf_of_takesOperand hop)]
      refine (reads_sum he).imp ?_
      rintro ts ⟨e, he, heq⟩
      exact ⟨e, .expression hop he, heq⟩

theorem fits_of_printableRight {op : Comparison} {right : Expr} (hright : right.PrintableRight op) :
    right.Fits (if op = .oneOf then .comma else .add) := by
  cases hright with
  | value hop he => exact fits_of_printableValue he _
  | list hitems hall => exact .inr rfl
  | field hop hfield hdirection =>
      rw [if_neg (ne_oneOf_of_takesOperand hop)]
      exact .inr rfl
  | sum hop he =>
      rw [if_neg (ne_oneOf_of_takesOperand hop)]
      exact fits_of_printableSum he

/-- A condition that is not in parentheses. -/
theorem reads_condition {span : Span} {op : Comparison} {left : FieldRef} {right : Expr}
    (hleft : left.Printable) (hdirection : left.direction = .unspecified) (hop : op ≠ .missing)
    (hright : right.PrintableRight op) :
    Reads (Expr.render (.condition { span } op left right)).toList
      (Like (Condition PlainName) Expr.unplaced (.condition { span } op left right)) := by
  have htext : (Expr.render (.condition { span } op left right)).toList =
      left.render.toList ++ ' ' :: (op.render.toList ++ ' ' :: right.rightText op) := by
    have hfits := fits_of_printableRight hright
    rw [Expr.render, Expr.rightText]
    split
    · rename_i hlist
      rw [if_pos hlist] at hfits
      simp [Expr.parenthesize, enclose_of_fits hfits, toString]
    · rename_i hlist
      rw [if_neg hlist] at hfits
      simp [Expr.parenthesize, enclose_of_fits hfits, toString]
  have hread := (reads_field hleft hdirection).spaced
    ((reads_comparison hop).spaced (reads_rightSide hright))
  rw [htext]
  refine hread.imp ?_
  rintro _ ⟨us, _, rfl, ⟨left', hleft', hl⟩, vs, ws, rfl, hoperator, right', hright', hr⟩
  refine ⟨_, .mk hleft' .nil (Nat.zero_le _) hoperator hright', ?_⟩
  simp only [List.foldr_nil, Expr.compare, Expr.unplaced, hl, hr]
  rfl

end TrackerQuery

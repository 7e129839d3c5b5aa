import TrackerQuery.Select.Print

/-!
# Queries without places

Two queries are the same up to their places if they are equal once every span is
forgotten.  Printing does not look at places, and neither does how deep a filter
nests.
-/

namespace TrackerQuery

def Token.unplaced (t : Token) : Token :=
  { t with span := {} }

theorem Token.kind_eq_of_unplaced {t u : Token} (h : t.unplaced = u.unplaced) : t.kind = u.kind :=
  (Token.mk.inj h).1

theorem Token.value_eq_of_unplaced {t u : Token} (h : t.unplaced = u.unplaced) :
    t.value = u.value :=
  (Token.mk.inj h).2.1

def Mark.unplaced (m : Mark) : Mark :=
  { m with span := {} }

def FieldRef.unplaced (field : FieldRef) : FieldRef :=
  { field with span := {} }

def TableRef.unplaced (table : TableRef) : TableRef :=
  { table with span := {} }

def FieldList.unplaced (list : FieldList) : FieldList :=
  { list with fields := list.fields.map FieldRef.unplaced, span := {} }

def ModeItem.unplaced (item : ModeItem) : ModeItem :=
  { item with span := {} }

def ModeList.unplaced (modes : ModeList) : ModeList :=
  { items := modes.items.map ModeItem.unplaced, span := {} }

namespace Expr

mutual

def unplaced : Expr → Expr
  | .string m value => .string m.unplaced value
  | .number m value => .number m.unplaced value
  | .boolean m value => .boolean m.unplaced value
  | .truth m value => .truth m.unplaced value
  | .var m v => .var m.unplaced v
  | .field m f => .field m.unplaced f.unplaced
  | .list m items => .list m.unplaced (unplacedAll items)
  | .condition m op left right => .condition m.unplaced op left.unplaced right.unplaced
  | .arithmetic m op left right type =>
      .arithmetic m.unplaced op left.unplaced right.unplaced type
  | .junction m connective operands => .junction m.unplaced connective (unplacedAll operands)
  | .not m operand => .not m.unplaced operand.unplaced
  | .ever m operand => .ever m.unplaced operand.unplaced

def unplacedAll : List Expr → List Expr
  | [] => []
  | e :: es => e.unplaced :: unplacedAll es

end

theorem unplacedAll_eq_map (es : List Expr) : unplacedAll es = es.map unplaced := by
  induction es with
  | nil => rfl
  | cons e es ih => rw [unplacedAll, ih, List.map_cons]

@[simp]
theorem mark_unplaced (e : Expr) : e.unplaced.mark = e.mark.unplaced := by
  cases e <;> rfl

@[simp]
theorem parens_unplaced (e : Expr) : e.unplaced.parens = e.parens := by
  rw [parens, mark_unplaced]
  rfl

@[simp]
theorem precedence_unplaced (e : Expr) : e.unplaced.precedence = e.precedence := by
  cases e with
  | junction m connective operands => cases connective <;> rfl
  | _ => rfl

theorem unplaced_withMark (e : Expr) (m : Mark) :
    (e.withMark m).unplaced = e.unplaced.withMark m.unplaced := by
  cases e <;> rfl

mutual

/-- Places are not printed. -/
theorem render_unplaced : (e : Expr) → e.unplaced.render = e.render
  | .string m value => rfl
  | .number m value => rfl
  | .boolean m value => rfl
  | .truth m value => rfl
  | .var m v => rfl
  | .field m f => rfl
  | .list m items => by
      simp only [unplaced, render, renderAll_unplacedAll]
      rfl
  | .condition m op left right => by
      simp only [unplaced, render, enclose, render_unplaced right, precedence_unplaced,
        parens_unplaced]
      rfl
  | .arithmetic m op left right type => by
      simp only [unplaced, render, enclose, render_unplaced left, render_unplaced right,
        precedence_unplaced, parens_unplaced]
      rfl
  | .junction m connective operands => by
      simp only [unplaced, render, renderAll_unplacedAll]
      rfl
  | .not m operand => by
      simp only [unplaced, render, enclose, render_unplaced operand, precedence_unplaced,
        parens_unplaced]
      rfl
  | .ever m operand => by
      simp only [unplaced, render, enclose, render_unplaced operand, precedence_unplaced,
        parens_unplaced]
      rfl

theorem renderAll_unplacedAll (limit : Precedence) :
    (es : List Expr) → renderAll limit (unplacedAll es) = renderAll limit es
  | [] => rfl
  | e :: es => by
      simp only [unplacedAll, renderAll, enclose, render_unplaced e, precedence_unplaced,
        parens_unplaced, renderAll_unplacedAll limit es]

end

end Expr

def Select.unplaced (query : Select) : Select where
  columns := query.columns.map FieldList.unplaced
  table := query.table.map TableRef.unplaced
  filter := query.filter.map Expr.unplaced
  grouping := query.grouping.map FieldList.unplaced
  ordering := query.ordering.map FieldList.unplaced
  asOf := query.asOf.map Expr.unplaced
  modes := query.modes.map ModeList.unplaced
  span := {}

theorem FieldList.render_unplaced (list : FieldList) : list.unplaced.render = list.render := by
  simp only [FieldList.render, FieldList.unplaced, List.map_map]
  rfl

theorem ModeList.render_unplaced (modes : ModeList) : modes.unplaced.render = modes.render := by
  simp only [ModeList.render, ModeList.unplaced, List.map_map]
  rfl

theorem Select.renderClause_map {α : Type} {keyword : String} {render : α → String} {f : α → α}
    (hrender : ∀ a, render (f a) = render a) (clause : Option α) :
    renderClause keyword render (clause.map f) = renderClause keyword render clause := by
  cases clause with
  | none => rfl
  | some clause => simp only [Option.map_some, renderClause, hrender]

theorem Select.render_unplaced (query : Select) : query.unplaced.render = query.render := by
  have htable : ∀ table : TableRef, table.unplaced.render = table.render := fun _ => rfl
  simp only [Select.render, Select.unplaced]
  rw [renderClause_map htable, renderClause_map Expr.render_unplaced,
    renderClause_map FieldList.render_unplaced, renderClause_map FieldList.render_unplaced,
    renderClause_map Expr.render_unplaced, renderClause_map ModeList.render_unplaced]
  cases query.columns with
  | none => rfl
  | some list => simp only [Option.map_some, list.render_unplaced]

/-- Queries that differ in places only print the same. -/
theorem Select.render_congr {a b : Select} (hab : a.unplaced = b.unplaced) :
    a.render = b.render := by
  rw [← a.render_unplaced, hab, b.render_unplaced]

end TrackerQuery

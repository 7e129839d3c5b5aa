import TrackerQuery.Proofs.OperandValue

/-!
# What a clause means

A clause is read at each revision of a work item: conditions are what an
interpretation says, `and`, `or` and `not` are the logical ones, and `ever` means
at some revision.
-/

namespace TrackerQuery

/-- What a condition asks: a field, the work item it is a field of, and what
its value is compared with.  The operand is missing if arithmetic in it cannot be
carried out. -/
structure Atom where
  field : Option Int
  qualifier : Option String
  op : Comparison
  operand : Option Expr

/-- A truth value for each condition, and for each value that stands alone, at
every revision. -/
structure Interpretation (Revision : Type) where
  condition : Atom → Revision → Prop
  value : Option Expr → Revision → Prop

def Session.atom (session : Session) (scope : Scope) (op : Comparison) (left : FieldRef)
    (right : Expr) : Atom where
  field := left.id
  qualifier := left.qualifier
  op
  operand := session.operandValue? (scope.withField left) right

variable {Revision : Type}

namespace Expr

mutual

/-- The expression is true at a revision. -/
def Holds (session : Session) (scope : Scope) (I : Interpretation Revision) :
    Expr → Revision → Prop
  | .truth _ value, _ => value = true
  | .condition _ op left right, r => I.condition (session.atom scope op left right) r
  | .junction _ .and operands, r => AllHold session scope I operands r
  | .junction _ .or operands, r => AnyHolds session scope I operands r
  | .not _ operand, r => ¬Holds session scope I operand r
  | .ever _ operand, _ => ∃ r, Holds session scope I operand r
  | e, r => I.value (session.operandValue? scope e) r
termination_by structural e => e

def AllHold (session : Session) (scope : Scope) (I : Interpretation Revision) :
    List Expr → Revision → Prop
  | [], _ => True
  | e :: es, r => Holds session scope I e r ∧ AllHold session scope I es r
termination_by structural es => es

def AnyHolds (session : Session) (scope : Scope) (I : Interpretation Revision) :
    List Expr → Revision → Prop
  | [], _ => False
  | e :: es, r => Holds session scope I e r ∨ AnyHolds session scope I es r
termination_by structural es => es

end

variable {session : Session} {scope : Scope} {I : Interpretation Revision} {r : Revision}

theorem holds_and_iff {m : Mark} {es : List Expr} :
    (junction m .and es).Holds session scope I r ↔ ∀ e ∈ es, e.Holds session scope I r := by
  rw [Holds]
  induction es with
  | nil => simp [AllHold]
  | cons e es ih => simp [AllHold, ih]

theorem holds_or_iff {m : Mark} {es : List Expr} :
    (junction m .or es).Holds session scope I r ↔ ∃ e ∈ es, e.Holds session scope I r := by
  rw [Holds]
  induction es with
  | nil => simp [AnyHolds]
  | cons e es ih => simp [AnyHolds, ih]

/-- A combination has the truth value that does not matter to it just if all
its operands have it. -/
theorem holds_junction_identity_iff {m : Mark} {connective : Connective} {es : List Expr} :
    ((junction m connective es).Holds session scope I r ↔ connective.identity = true) ↔
      ∀ e ∈ es, (e.Holds session scope I r ↔ connective.identity = true) := by
  cases connective with
  | and => simp [Connective.identity, holds_and_iff]
  | or => simp [Connective.identity, holds_or_iff]

theorem holds_truth?_iff {e : Expr} {value : Bool} (htruth : e.truth? = some value) :
    e.Holds session scope I r ↔ value = true := by
  cases e with
  | truth m found =>
      cases htruth
      rfl
  | _ => cases htruth

theorem holds_operand_iff {e : Expr} (hoperand : e.isOperand = true) (htruth : e.truth? = none) :
    e.Holds session scope I r ↔ I.value (session.operandValue? scope e) r := by
  cases e with
  | truth m value => cases htruth
  | condition m op left right => cases hoperand
  | junction m connective operands => cases hoperand
  | not m operand => cases hoperand
  | ever m operand => cases hoperand
  | _ => rfl

theorem holds_ofOperands_iff {m : Mark} {connective : Connective} {es : List Expr} :
    (ofOperands m connective es).Holds session scope I r ↔
      (junction m connective es).Holds session scope I r := by
  match es with
  | [] => cases connective <;> simp [ofOperands, Holds, AllHold, AnyHolds, Connective.identity]
  | [single] => cases connective <;> simp [ofOperands, Holds, AllHold, AnyHolds]
  | first :: second :: others => rfl

end Expr

/-- An interpretation that reads conditions as the server does. -/
structure Interpretation.Faithful (I : Interpretation Revision) : Prop where
  /-- `in` asks for one of the values. -/
  oneOf : ∀ field qualifier m items r,
    I.condition ⟨field, qualifier, .oneOf, some (.list m items)⟩ r ↔
      ∃ item ∈ items, I.condition ⟨field, qualifier, .equals, some item⟩ r
  /-- Every text contains the empty one. -/
  emptySearch : ∀ field qualifier op value r, op.isSearch = true → value.literal? = some "" →
    I.condition ⟨field, qualifier, op, some value⟩ r
  /-- Some fields are never empty. -/
  present : ∀ id qualifier value r, CoreField.alwaysHasValue id = true →
    value.literal? = some "" → I.condition ⟨some id, qualifier, .notEquals, some value⟩ r
  /-- A work item is in a project if its area is under the project, on the same
  side of a link. -/
  project : ∀ qualifier value project m r, value.literal? = some project → project ≠ "" →
    (I.condition ⟨some CoreField.teamProject, qualifier, .equals, some value⟩ r ↔
      I.condition ⟨some CoreField.areaPath, qualifier, .under, some (.string m project)⟩ r) ∧
    (I.condition ⟨some CoreField.teamProject, qualifier, .notEquals, some value⟩ r ↔
      ¬I.condition ⟨some CoreField.areaPath, qualifier, .under, some (.string m project)⟩ r)

/-- Every field holds the text of its side of the link, and an area is under
itself only. -/
def Interpretation.sideTexts :
    Interpretation (Option String → { text : String // text ≠ "" }) where
  condition atom texts :=
    let text := (texts atom.qualifier).1
    match atom.op, atom.operand with
    | .oneOf, some (.list _ items) => ∃ item ∈ items, item.literal? = some text
    | .notEquals, some value => value.literal? ≠ some text
    | .contains, some value | .containsWords, some value =>
        value.literal? = some "" ∨ value.literal? = some text
    | _, some value => value.literal? = some text
    | _, none => False
  value _ _ := False

theorem Interpretation.sideTexts_faithful : sideTexts.Faithful where
  oneOf _ _ _ _ _ := Iff.rfl
  emptySearch _ _ op value texts hop hempty := by
    obtain rfl | rfl : op = .contains ∨ op = .containsWords := by
      simpa [Comparison.isSearch] using hop
    · exact .inl hempty
    · exact .inl hempty
  present _ qualifier value texts _ hempty := by
    show value.literal? ≠ some (texts qualifier).1
    rw [hempty]
    exact fun heq => (texts qualifier).2 (Option.some.inj heq).symm
  project qualifier value project m texts hvalue _ := by
    show (value.literal? = some (texts qualifier).1 ↔ some project = some (texts qualifier).1) ∧
      (value.literal? ≠ some (texts qualifier).1 ↔ ¬some project = some (texts qualifier).1)
    rw [hvalue]
    exact ⟨Iff.rfl, Iff.rfl⟩

end TrackerQuery

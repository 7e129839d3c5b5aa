import TrackerQuery.Document.Condition

/-!
# The parts of a link query

A link query constrains the source of a link, the link itself and its target.
Each operand of its filter has to be about one of the three, and a recursive
query has to settle on one link type.
-/

namespace TrackerQuery

namespace Expr

mutual

/-- The qualifiers of all fields in an expression; a field of the link has the
empty one. -/
def qualifiers : Expr → List String
  | .field _ f => [f.qualifierText]
  | .condition _ _ left right => left.qualifierText :: right.qualifiers
  | .list _ items => qualifiersOfAll items
  | .junction _ _ operands => qualifiersOfAll operands
  | .not _ operand | .ever _ operand => operand.qualifiers
  | .arithmetic _ _ left right _ => left.qualifiers ++ right.qualifiers
  | _ => []

def qualifiersOfAll : List Expr → List String
  | [] => []
  | e :: es => e.qualifiers ++ qualifiersOfAll es

end

/-- The operands that all have to hold. -/
def conjuncts : Expr → List Expr
  | .junction _ .and operands => operands
  | e => [e]

end Expr

/-- What an operand of a link query is about. -/
inductive Side where
  | source
  | link
  | target
  deriving DecidableEq, Repr, Inhabited

/-- The side that an operand is about; one without fields goes to the source. -/
def Side.ofOperand (operand : Expr) : Except Error Side :=
  match operand.qualifiers with
  | [] => .ok .source
  | qualifier :: others =>
      if !others.all (· == qualifier) then .error (.located .mixedPrefixes operand.span)
      else if qualifier.isEmpty then .ok .link
      else if Text.sameIgnoringCase qualifier Session.targetQualifier then .ok .target
      else .ok .source

/-- The operands of a filter by what they are about. -/
structure Sides where
  source : List Expr := []
  link : List Expr := []
  target : List Expr := []
  deriving Inhabited

namespace Sides

/-- Puts an operand before those of its side. -/
def add (sides : Sides) (operand : Expr) : Side → Sides
  | .source => { sides with source := operand :: sides.source }
  | .link => { sides with link := operand :: sides.link }
  | .target => { sides with target := operand :: sides.target }

def ofOperands : List Expr → Except Error Sides
  | [] => .ok {}
  | operand :: rest => do
      let side ← Side.ofOperand operand
      return (← ofOperands rest).add operand side

def ofFilter : Option Expr → Except Error Sides
  | some filter => ofOperands filter.conjuncts
  | none => .ok {}

end Sides

/-! ## Link types -/

/-- Link types by identity, in ascending order and without repetition. -/
abbrev LinkTypeSet := List Int

namespace LinkTypeSet

def insert (id : Int) : LinkTypeSet → LinkTypeSet
  | [] => [id]
  | first :: rest =>
      if id < first then id :: first :: rest
      else if id = first then first :: rest
      else first :: LinkTypeSet.insert id rest

def ofList (ids : List Int) : LinkTypeSet :=
  ids.foldr insert []

/-- The link types that both admit; `none` admits all. -/
def meet : Option LinkTypeSet → Option LinkTypeSet → Option LinkTypeSet
  | some a, some b => some (a.filter b.contains)
  | some a, none => some a
  | none, b => b

end LinkTypeSet

namespace Session

/-- All link types but the given ones. -/
def linkTypesExcept (session : Session) (excluded : LinkTypeSet) : LinkTypeSet :=
  .ofList ((session.catalog.linkTypes.map LinkTypeEnd.id).filter (!excluded.contains ·))

/-- The link types that a condition admits. -/
def conditionLinkTypes (session : Session) (op : Comparison) (left : FieldRef) (right : Expr)
    (span : Span) : Except Error (Option LinkTypeSet) := do
  let definition ← session.definition left
  if definition.id ≠ CoreField.linkType then return none
  let id ← session.linkTypeId right
  match op with
  | .equals => return some [id]
  | .notEquals => return some (session.linkTypesExcept [id])
  | _ => .error (.located .invalidConditionForLinkType span)

mutual

/-- The link types that an expression about the link admits; `none` if it does
not constrain them. -/
def linkTypes (session : Session) : Expr → Except Error (Option LinkTypeSet)
  | .condition m op left right => session.conditionLinkTypes op left right m.span
  | .junction _ .and operands => commonLinkTypes session operands
  | .not _ operand => do return (← linkTypes session operand).map session.linkTypesExcept
  | e => .error (.located .invalidConditionForLinkType e.span)
termination_by structural e => e

/-- The link types that all expressions admit. -/
def commonLinkTypes (session : Session) : List Expr → Except Error (Option LinkTypeSet)
  | [] => .ok none
  | e :: es => do
      let types ← linkTypes session e
      return LinkTypeSet.meet types (← commonLinkTypes session es)
termination_by structural es => es

end

/-- The one link type that a recursive query follows. -/
def recursiveLinkType (session : Session) (operands : List Expr) (span : Span) :
    Except Error Int := do
  match ← session.commonLinkTypes operands with
  | some [id] => return id
  | _ => .error (.located .treeQueryNeedsOneLinkType span)

end Session

end TrackerQuery

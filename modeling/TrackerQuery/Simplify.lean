import TrackerQuery.Schema

/-!
# Simplification

Simplifying an expression simplifies its parts first, folds truth values out of
`and`, `or`, `not` and `ever`, and then hands each expression to the reduction of
the schema.
-/

namespace TrackerQuery

/-- Reduces one expression whose parts are simplified already. -/
abbrev Reduction := Scope → Expr → Except Error Expr

/-- The truth value that an operand may have without effect. -/
def Connective.identity : Connective → Bool
  | .and => true
  | .or => false

namespace Expr

/-- What is left of operands: nothing makes the identity, one operand stands
for itself. -/
def ofOperands (m : Mark) (connective : Connective) : List Expr → Expr
  | [] => .truth { span := m.span } connective.identity
  | [single] => single
  | operands => .junction m connective operands

mutual

def simplifyWith (reduce : Reduction) (scope : Scope) : Expr → Except Error Expr
  | .list m items => do
      reduce scope (.list m (← simplifyAll reduce scope items))
  | .condition m op left right => do
      let right ← simplifyWith reduce (scope.withField left) right
      reduce scope (.condition m op left right)
  | .arithmetic m op left right type => do
      let left ← simplifyWith reduce scope left
      let right ← simplifyWith reduce scope right
      reduce scope (.arithmetic m op left right type)
  | .junction m connective operands => do
      match ← foldOperands reduce scope connective.identity operands with
      | some operands => reduce scope (ofOperands m connective operands)
      | none => reduce scope (.truth { span := m.span } !connective.identity)
  | .not m operand => do
      match ← simplifyWith reduce scope operand with
      | .not _ inner => return inner
      | .truth _ value => reduce scope (.truth { span := m.span } !value)
      | operand => reduce scope (.not m operand)
  | .ever m operand => do
      match ← simplifyWith reduce scope operand with
      | .ever _ inner => return inner
      | .truth _ value => reduce scope (.truth { span := m.span } value)
      | operand => reduce scope (.ever m operand)
  | .string m value => reduce scope (.string m value)
  | .number m value => reduce scope (.number m value)
  | .boolean m value => reduce scope (.boolean m value)
  | .truth m value => reduce scope (.truth m value)
  | .var m v => reduce scope (.var m v)
  | .field m f => reduce scope (.field m f)
termination_by structural e => e

def simplifyAll (reduce : Reduction) (scope : Scope) : List Expr → Except Error (List Expr)
  | [] => .ok []
  | e :: es => do
      let e ← simplifyWith reduce scope e
      return e :: (← simplifyAll reduce scope es)
termination_by structural es => es

/-- The operands that are left once those equal to the identity are dropped;
`none` as soon as one decides the whole. -/
def foldOperands (reduce : Reduction) (scope : Scope) (identity : Bool) :
    List Expr → Except Error (Option (List Expr))
  | [] => .ok (some [])
  | e :: es => do
      let e ← simplifyWith reduce scope e
      match e.truth? with
      | some value =>
          if value == identity then foldOperands reduce scope identity es else return none
      | none => return (← foldOperands reduce scope identity es).map (e :: ·)
termination_by structural es => es

end

/-- Simplification with a reduction that may ask for what it makes to be
simplified again, `rounds` times over. -/
def simplifyRounds (reduce : (again : Reduction) → Reduction) : (rounds : Nat) → Reduction
  | 0 => fun _ e => .ok e
  | rounds + 1 => simplifyWith (reduce (simplifyRounds reduce rounds))

end Expr

end TrackerQuery

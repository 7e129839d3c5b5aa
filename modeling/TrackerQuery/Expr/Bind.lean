import TrackerQuery.Schema

/-!
# Resolving expressions

Resolving fills in what the names of an expression stand for, from left to
right, and checks every expression once its parts are resolved.
-/

namespace TrackerQuery

open Error (ensure)

/-- Resolves the name, then the qualifier. -/
def FieldRef.bind (schema : Schema) (scope : Scope) (field : FieldRef) : Attempt FieldRef :=
  match schema.findField field.name with
  | none => .stopped field (.located .fieldDoesNotExist field.span)
  | some id =>
      let found := { field with id := some id, type := schema.fieldType id }
      match schema.qualifier found scope.table with
      | .ok qualifier => .done { found with qualifier }
      | .error error => .stopped found error

namespace Expr

def ensureConst (e : Expr) : Except Error Unit :=
  ensure e.isConst (.located .expectingConst e.span)

def ensureBoolean (e : Expr) : Except Error Unit :=
  ensure (e.dataType == .bool) (.located .expectingBoolean e.span)

/-- The right side of a condition is of a kind and type that goes with the
field.  Paths and group names are texts whatever the field holds. -/
def checkRight (schema : Schema) (op : Comparison) (left : FieldRef) (right : Expr) :
    Except Error Unit :=
  match right with
  | .field _ other =>
      ensure (other.type == left.type) (.located .incompatibleConditionPartsType right.span)
  | .list .. => do
      ensure (← right.castsTo schema.dates left.type)
        (.located .unknownOrIncompatibleTypesInTheList right.span)
  | _ => do
      ensureConst right
      let target := if op = .under ∨ op = .inGroup then .string else left.type
      ensure (← right.castsTo schema.dates target) (.located .incompatibleRightConst right.span)

def bindVariable (schema : Schema) (m : Mark) (v : Variable) : Attempt Expr :=
  match schema.findVariable v.name with
  | none => .stopped (.var m v) (.located .variableDoesNotExist m.span)
  | some found =>
      { value := .var m
          { v with target := some found.target, type := schema.variableType found.target }
        failure := none
        macros := if found.leftToServer then [v.name] else [] }

/-- Arithmetic under a date or a number is of that type, else of the type of
its left operand. -/
def arithmeticType (scope : Scope) (left : Expr) : DataType :=
  match scope.fieldType? with
  | some .date => .date
  | some .numeric => .numeric
  | _ => left.dataType

mutual

/-- Resolves the parts of an expression, without the check of the whole. -/
def bindParts (schema : Schema) (scope : Scope) : Expr → Attempt Expr
  | .var m v => bindVariable schema m v
  | .field m f => (f.bind schema scope).map (.field m)
  | .list m items => (bindAll schema scope ensureConst items).map (.list m)
  | .condition m op left right =>
      (left.bind schema scope).andThen (.condition m op · right) fun left =>
        let inner := scope.withField left
        (((bindParts schema inner right).check (schema.verifyExpr inner)).check
          (checkRight schema op left)).map (.condition m op left)
  | .arithmetic m op left right type =>
      ((bindParts schema scope left).check (schema.verifyExpr scope)).andThen
          (.arithmetic m op · right type) fun left =>
        ((bindParts schema scope right).check (schema.verifyExpr scope)).andThen
            (.arithmetic m op left · type) fun right =>
          if left.isConst && right.isConst then
            .done (.arithmetic m op left right (arithmeticType scope left))
          else
            .stopped (.arithmetic m op left right type) (.located .expectingConst m.span)
  | .junction m connective operands =>
      (bindAll schema scope ensureBoolean operands).map (.junction m connective)
  | .not m operand =>
      (((bindParts schema scope operand).check (schema.verifyExpr scope)).check
        ensureBoolean).map (.not m)
  | .ever m operand =>
      (((bindParts schema scope operand).check (schema.verifyExpr scope)).check
        ensureBoolean).map (.ever m)
  | .string m value => .done (.string m value)
  | .number m value => .done (.number m value)
  | .boolean m value => .done (.boolean m value)
  | .truth m value => .done (.truth m value)
termination_by structural e => e

/-- Resolves the items in turn and tests each. -/
def bindAll (schema : Schema) (scope : Scope) (test : Expr → Except Error Unit) :
    List Expr → Attempt (List Expr)
  | [] => .done []
  | e :: es =>
      (((bindParts schema scope e).check (schema.verifyExpr scope)).check test).andThen
        (· :: es) fun first => (bindAll schema scope test es).map (first :: ·)
termination_by structural es => es

end

/-- Resolves the parts of an expression and checks the whole. -/
def bind (schema : Schema) (scope : Scope) (e : Expr) : Attempt Expr :=
  (bindParts schema scope e).check (schema.verifyExpr scope)

end Expr

end TrackerQuery

import TrackerQuery.Session
import TrackerQuery.Xml

/-!
# Conditions in the query document

A condition becomes one `Expression` element.  `not` and `ever` have no element
of their own: they choose the operator of the conditions below them.
-/

namespace TrackerQuery

/-- What the conditions below a place are subject to. -/
structure Polarity where
  negated : Bool := false
  ever : Bool := false
  deriving DecidableEq, Repr, Inhabited

namespace Session

open Xml (Element)

def coreField (session : Session) (id : Int) (span : Span) : Except Error FieldDefinition :=
  match session.catalog.fieldById? id with
  | some definition => .ok definition
  | none => .error (.located .fieldDoesNotExist span)

def constant (e : Expr) : Except Error String :=
  match e.literal? with
  | some text => .ok text
  | none => .error (.located .expectingValue e.span)

/-- The identity of the link type that an expression names. -/
def linkTypeId (session : Session) (e : Expr) : Except Error Int :=
  match e.literal?.bind session.catalog.linkTypeEnd? with
  | some linkEnd => .ok linkEnd.id
  | none => .error (.located .invalidLinkTypeName e.span)

/-- The node of a hierarchy in place of its path; the empty path stays. -/
def treeNode (session : Session) (hierarchy : Hierarchy) (path : Expr) : Except Error Expr := do
  let text ← constant path
  if text.isEmpty then return path
  match session.catalog.treeId? hierarchy text with
  | some id => return .number { span := path.span } (toString id)
  | none => .error (.located .treePathIsNotFoundInHierarchy path.span)

/-- The column that stands for a field in the document, and the value it is
compared with: paths and link types are stored as identities. -/
def storedSides (session : Session) (definition : FieldDefinition) (left : Span) (right : Expr) :
    Except Error (FieldDefinition × Expr) := do
  if definition.id = CoreField.areaPath then
    let column ← session.coreField CoreField.areaId left
    return (column, ← session.treeNode .area right)
  else if definition.id = CoreField.iterationPath then
    let column ← session.coreField CoreField.iterationId left
    return (column, ← session.treeNode .iteration right)
  else if definition.id = CoreField.linkType then
    let id ← session.linkTypeId right
    return (definition, .number { span := right.span } (toString id))
  else return (definition, right)

/-- A date of the document is universal; the empty text stays. -/
def dateElement (session : Session) (right : Expr) : Except Error Element := do
  let text ← constant right
  if text.isEmpty then return .ofText "DateTime" text
  return .ofText "DateTime" (← session.instant text right.span).renderUniversal

/-- A value by its own kind; a number is one only in a column of integers. -/
def valueElement (column : FieldDefinition) : Expr → Except Error Element
  | .string _ text => .ok (.ofText "String" text)
  | .number _ text => .ok (.ofText (if column.type = .integer then "Number" else "String") text)
  | .boolean _ value => .ok (.ofText "Number" (if value then "1" else "0"))
  | e => .error (.located .invalidNodeType e.span)

/-- The right side of a comparison with `left`. -/
def operandElement (session : Session) (left : FieldRef) (column : FieldDefinition)
    (right : Expr) : Except Error Element := do
  match right with
  | .field _ other => return .ofText "Column" (← session.definition other).referenceName
  | _ =>
      match left.type with
      | .date => session.dateElement right
      | .guid => return .ofText "Guid" (← constant right)
      | _ => valueElement column right

/-- The `Expression` element of a condition.  The history of a work item is
searched in all its revisions. -/
def conditionElement (session : Session) (polarity : Polarity) (op : Comparison)
    (left : FieldRef) (right : Expr) (span : Span) : Except Error Element := do
  let definition ← session.definition left
  let (column, right) ← session.storedSides definition left.span right
  let ever := polarity.ever || (op.isSearch && column.id == CoreField.history)
  match op.documentOperator polarity.negated ever with
  | none => .error (.located .invalidConditionalOperator span)
  | some operator =>
      let element : Element :=
        { name := "Expression"
          attributes := [("Column", column.referenceName),
            ("FieldType", toString definition.type.code), ("Operator", operator)] }
      if op.isSearch then
        return element.push (.ofText "String" (← constant right))
      else if op = .inGroup then
        return (element.set "ExpandConstant" "true").push (.ofText "String" (← constant right))
      else
        return element.push (← session.operandElement left column right)

/-- A truth value, as a comparison that holds for no work item or for all. -/
def truthElement (polarity : Polarity) (value : Bool) : Element :=
  { name := "Expression"
    attributes := [("Column", "System.Id"),
      ("Operator", if value = polarity.negated then "equals" else "notEquals")]
    children := [.ofText "Number" "0"] }

/-- The operator of the group that a list of operands becomes: negation turns
one connective into the other. -/
def groupOperator (connective : Connective) (negated : Bool) : String :=
  if (connective == .or) == negated then "and" else "or"

def groupElement (operator : String) (operands : List Element) : Element :=
  { name := "Group", attributes := [("GroupOperator", operator)], children := operands }

mutual

/-- The element of an expression under `not` and `ever` as the polarity says. -/
def element (session : Session) (polarity : Polarity) : Expr → Except Error Element
  | .junction _ connective operands => do
      return groupElement (groupOperator connective polarity.negated)
        (← elements session polarity operands)
  | .not _ operand => element session { polarity with negated := !polarity.negated } operand
  | .ever _ operand => element session { polarity with ever := true } operand
  | .truth _ value => .ok (truthElement polarity value)
  | .condition m op left right => session.conditionElement polarity op left right m.span
  | e => .error (.located .invalidNodeType e.span)
termination_by structural e => e

def elements (session : Session) (polarity : Polarity) :
    List Expr → Except Error (List Element)
  | [] => .ok []
  | e :: es => do
      let first ← element session polarity e
      return first :: (← elements session polarity es)
termination_by structural es => es

end

end Session

end TrackerQuery

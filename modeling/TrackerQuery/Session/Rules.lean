import TrackerQuery.Session

/-!
# The rules of the server

What the server accepts: which comparisons go with which fields, what may stand
under `ever`, and which fields may be selected and sorted by.
-/

namespace TrackerQuery.Session

open Error (ensure)

/-- A comparison of two fields. -/
def verifyFieldComparison (session : Session) (definition : FieldDefinition)
    (left other : FieldRef) (span : Span) (mode : QueryMode) : Except Error Unit := do
  ensure session.settings.supportsFieldComparison (.notSupported "服务器不支持字段之间的比较")
  if mode.isLinkQuery then
    ensure (Text.sameIgnoringCase left.qualifierText other.qualifierText)
      (.located .fieldConditionsInLinkQueries span)
  let otherDefinition ← session.definition other
  ensure (!definition.type.isLongText && !otherDefinition.type.isLongText)
    (.located .invalidFieldTypeForCondition span)

/-- Membership in a group is asked of text fields; the type of a work item is
exempt. -/
def verifyGroup (session : Session) (definition : FieldDefinition) : Except Error Unit := do
  unless definition.id == CoreField.workItemType do
    ensure session.settings.supportsInGroup (.notSupported "服务器不支持 'in group'")
    ensure (definition.type == .string)
      (.notSupported s!"'in group' 不能用于字段 '{definition.name}'，只能用于字符串字段")

def verifyTreePath (session : Session) (definition : FieldDefinition) (op : Comparison)
    (right : Expr) (span : Span) : Except Error Unit := do
  ensure (op.isEquality || op == .under) (.located .invalidConditionForTreeField span)
  ensure (right.dataType == .string)
    (.located .pathMustBeAStringNotStartingWithBackslash right.span)
  match right.literal? with
  | none => return
  | some path =>
      if path.isEmpty && op != .under then return
      ensure (path.toList.head? != some '\\')
        (.located .pathMustBeAStringNotStartingWithBackslash right.span)
      let hierarchy := if definition.id = CoreField.areaPath then .area else .iteration
      ensure (session.catalog.treeId? hierarchy path).isSome
        (.located .treePathIsNotFoundInHierarchy right.span)

def verifyLongText (op : Comparison) (right : Expr) (span : Span) : Except Error Unit := do
  match right.literal? with
  | none => return
  | some pattern =>
      ensure (op.isSearch) (.located .invalidConditionForLongTextField span)
      ensure (!(Text.trim pattern).isEmpty) (.located .invalidLongTextSearchForWhitespace span)

def verifyProject (session : Session) (op : Comparison) (right : Expr) (span : Span) :
    Except Error Unit := do
  ensure (op.isEquality) (.located .invalidConditionForNodeField span)
  match right.literal? with
  | none => return
  | some project =>
      if project.isEmpty then return
      ensure (!project.toList.contains '\\') (.located .invalidProjectName right.span)
      ensure (session.catalog.treeId? .area project).isSome (.located .projectNotFound right.span)

/-- A link type is named; a recursive query follows a tree downwards. -/
def verifyLinkType (session : Session) (op : Comparison) (right : Expr) (span : Span)
    (mode : QueryMode) : Except Error Unit := do
  ensure (op.isEquality) (.located .invalidConditionForLinkType span)
  match right.literal? with
  | none => return
  | some name =>
      if name.isEmpty && op == .notEquals then return
      match session.catalog.linkTypeEnd? name with
      | none => .error (.located .invalidLinkTypeName right.span)
      | some linkEnd =>
          if mode == .linksRecursive then
            ensure (linkEnd.topology == .tree && linkEnd.isForward)
              (.located .invalidLinkTypeNameRecursive right.span)

/-- An optional sign and digits. -/
def isIntegerLiteral (text : String) : Bool :=
  let digits := match text.toList with
    | '+' :: digits | '-' :: digits => digits
    | digits => digits
  !digits.isEmpty && digits.all Decimal.isDigit

def verifyInteger (right : Expr) : Except Error Unit := do
  match right.literal? with
  | none => return
  | some value =>
      ensure (value.isEmpty || isIntegerLiteral value)
        (.located .incompatibleRightConst right.span)

/-- The rule of the field that a value is compared with. -/
def verifyByField (session : Session) (definition : FieldDefinition) (op : Comparison)
    (right : Expr) (span : Span) (mode : QueryMode) : Except Error Unit :=
  if definition.type = .treePath then session.verifyTreePath definition op right span
  else if definition.type.isLongText then verifyLongText op right span
  else if definition.type = .string && definition.id = CoreField.teamProject then
    session.verifyProject op right span
  else if definition.id = CoreField.linkType then session.verifyLinkType op right span mode
  else if definition.type = .integer then verifyInteger right
  else .ok ()

/-- A comparison of a field with a value. -/
def verifyValue (session : Session) (definition : FieldDefinition) (left : FieldRef)
    (op : Comparison) (right : Expr) (span : Span) (mode : QueryMode) : Except Error Unit := do
  if op == .inGroup then session.verifyGroup definition
  if right.literal? == some "" then
    ensure (op.isEquality) (.located .invalidConditionForEmptyString span)
  session.verifyByField definition op right span mode
  if op == .under then
    ensure (definition.type == .treePath) (.located .underCanBeUsedForTreePathFieldOnly left.span)

def verifyComparison (session : Session) (left : FieldRef) (op : Comparison) (right : Expr)
    (span : Span) (mode : QueryMode) : Except Error Unit := do
  ensure (op != .missing) (.located .invalidConditionalOperator span)
  let definition ← session.definition left
  match right with
  | .field _ other => session.verifyFieldComparison definition left other span mode
  | _ =>
      if op = .oneOf then return
      session.verifyValue definition left op right span mode

/-- Each value of an `in` list is checked as if it were compared with `=`. -/
def verifyCondition (session : Session) (left : FieldRef) (op : Comparison) (right : Expr)
    (span : Span) (mode : QueryMode) : Except Error Unit := do
  session.verifyComparison left op right span mode
  match op, right with
  | .oneOf, .list _ items =>
      for item in items do session.verifyComparison left .equals item span mode
  | _, _ => return

/-- Under `ever` stands one condition with `=` or a search, and not of a link
field. -/
def verifyEver (session : Session) (operand : Expr) (span : Span) : Except Error Unit := do
  match operand with
  | .condition m op left right =>
      ensure (op == .equals || op.isSearch) (.located .everNotEqualOperator m.span)
      if left.type == .date && session.settings.dayPrecision then
        ensure (right.literal? == some "") (.located .everWithDatePrecision m.span)
      let definition ← session.definition left
      ensure (!definition.isLinkField) (.located .everWithLinkQuery span)
  | _ => .error (.located .tooComplexEverOperator span)

def verifyArithmetic (session : Session) (left right : Expr) (span : Span) :
    Except Error Unit := do
  ensure (← left.castsTo session.dates .date <||> left.castsTo session.dates .numeric)
    (.located .wrongTypeForArithmetic span)
  ensure (right.dataType == .numeric) (.located .wrongTypeForArithmeticRightOperand span)

def verifyExpr (session : Session) (scope : Scope) : Expr → Except Error Unit
  | .condition m op left right => session.verifyCondition left op right m.span scope.mode
  | .ever m operand => session.verifyEver operand m.span
  | .arithmetic m _ left right _ => session.verifyArithmetic left right m.span
  | _ => .ok ()

def verifyColumns (session : Session) (fields : List FieldRef) : Except Error Unit := do
  for field in fields do
    ensure (← session.definition field).queryable (.located .nonQueryableField field.span)

/-- The fields of an `order by` list, given the ones before them. -/
def verifyOrdering (session : Session) (earlier : List FieldRef) :
    List FieldRef → Except Error Unit
  | [] => .ok ()
  | field :: later => do
      let definition ← session.definition field
      ensure (!earlier.any (·.id == field.id)) (.located .duplicateOrderByField field.span)
      ensure (!definition.isLinkField) (.located .orderByLinkField field.span)
      ensure definition.sortable (.located .nonSortableField field.span)
      session.verifyOrdering (earlier ++ [field]) later

def verifyFields (session : Session) (list : FieldList) : Except Error Unit :=
  match list.kind with
  | .select => session.verifyColumns list.fields
  | .order => session.verifyOrdering [] list.fields
  | .group => .ok ()

def verifyQuery (query : Select) : Except Error Unit := do
  match query.table.filter fun table => table.resolved.isSome with
  | none => .error (.located .expectingTableName query.span)
  | some table =>
      if let some grouping := query.grouping then
        .error (.located .groupByIsNotSupported grouping.span)
      if let some moment := query.asOf then
        ensure (table.mode != .linksRecursive) (.located .notSupportedTreeQuery moment.span)

/-- The session as a schema. -/
def schema (session : Session) : Schema where
  findField name := (session.catalog.field? name).map FieldDefinition.id
  findTable := session.findTable
  findVariable := session.findVariable
  fieldType := session.fieldType
  variableType := session.variableType
  qualifier := session.qualifier
  verifyExpr := session.verifyExpr
  verifyFields := session.verifyFields
  verifyQuery := verifyQuery
  dates := session.dates

end TrackerQuery.Session

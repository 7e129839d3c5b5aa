import TrackerQuery.Expr.Bind
import TrackerQuery.Session.Rules
import TrackerQuery.Simplify

/-!
# Reduction

How a session reduces expressions to what the server understands: an `in`
list becomes a disjunction, conditions that always hold become true, a team
project becomes its area, dates are widened to whole days, macros give way to
their values and arithmetic is carried out.
-/

namespace TrackerQuery.Session

open Error (ensure)

/-! ## Macros -/

/-- A date as a literal in the zone of the session. -/
def dateLiteral (session : Session) (t : Calendar.Instant) (span : Span) : Expr :=
  .string { span } (t.renderLocal session.zone)

def today (session : Session) : Calendar.Instant :=
  session.zone.startOfDay session.now

/-- The value of a macro as a constant; a macro that is left to the server
stays. -/
def inlineVariable (session : Session) (m : Mark) (v : Variable) : Expr :=
  match v.target with
  | none => .var m v
  | some target =>
      match session.context.lookup target with
      | some (.dateTime t) => session.dateLiteral t m.span
      | some (.string value) => .string { span := m.span } value
      | some value => .number { span := m.span } value.render
      | none =>
          if target == "me" then .string { span := m.span } session.catalog.currentUser
          else if target == "today" then session.dateLiteral session.today m.span
          else .var m v

/-! ## Arithmetic -/

/-- The operand of an addition; it has to be finite. -/
def increment (text : String) (span : Span) : Except Error Float :=
  match Decimal.float? (Text.trim text) with
  | some value =>
      if value.isFinite then .ok value
      else .error (.located .wrongTypeForArithmeticRightOperand span)
  | none => .error (.located .wrongTypeForArithmeticRightOperand span)

def foldNumbers (left : Expr) (factor : Float) (text : String) (span textSpan : Span) :
    Except Error Expr := do
  let wrongType : Error := .located .wrongTypeForArithmetic span
  match left.literal?.bind fun literal => Decimal.float? (Text.trim literal) with
  | none => .error wrongType
  | some base =>
      let sum := base + factor * (← increment text textSpan)
      ensure sum.isFinite wrongType
      return .number { span } (Decimal.renderFloat sum)

/-- Whole days keep the local time of day, fractions are exact time. -/
def shiftDate (session : Session) (t : Calendar.Instant) (op : Arithmetic) (factor : Float)
    (text : String) (textSpan : Span) : Except Error (Option Calendar.Instant) := do
  match Decimal.int64? (Text.trim text) with
  | some days =>
      if op = .subtract then
        return if days = Decimal.least64 then none else session.zone.addDays? t (-days)
      else return session.zone.addDays? t days
  | none => return t.addFraction? (factor * (← increment text textSpan))

def foldDate (session : Session) (left : Expr) (op : Arithmetic) (factor : Float)
    (text : String) (span textSpan : Span) : Except Error Expr := do
  match left.literal? with
  | none => .error (.located .wrongTypeForArithmetic span)
  | some literal =>
      let t ← session.instant literal left.span
      match ← session.shiftDate t op factor text textSpan with
      | some shifted => return session.dateLiteral shifted span
      | none => .error (.located .invalidDate span)

/-- Carries out arithmetic whose operands are constants, by the type of the
field it is compared with. -/
def foldArithmetic (session : Session) (scope : Scope) (m : Mark) (op : Arithmetic)
    (left right : Expr) (type : DataType) : Except Error Expr := do
  match right with
  | .number rightMark text =>
      let factor : Float ← match op with
        | .add => pure 1.0
        | .subtract => pure (-1.0)
        | .missing => .error (.located .wrongTypeForArithmetic m.span)
      match scope.fieldType? with
      | none | some .numeric => foldNumbers left factor text m.span rightMark.span
      | some .date => session.foldDate left op factor text m.span rightMark.span
      | some _ => return .arithmetic m op left right type
  | _ => .error (.located .wrongTypeForArithmeticRightOperand right.span)

/-! ## Conditions -/

/-- The disjunction that an `in` list stands for. -/
def alternatives (m : Mark) (left : FieldRef) (items : List Expr) : Expr :=
  (Expr.join .or (items.map (Expr.compare .equals left.reference))).withMark m

/-- A team project is the area of its name with everything below. -/
def projectCondition (session : Session) (scope : Scope) (m : Mark) (op : Comparison)
    (left : FieldRef) (project : String) (projectSpan : Span) : Except Error Expr := do
  match session.catalog.fieldById? CoreField.areaPath with
  | none => .error (.located .fieldDoesNotExist left.span)
  | some area =>
      let field : FieldRef :=
        { name := area.referenceName, qualifier := left.qualifier, span := left.span }
      let under := (Expr.compare .under field (.string { span := projectSpan } project)).withSpan
        m.span
      let condition := if op = .notEquals then Expr.negate under else under
      ((condition.withParens m.parens).bind session.schema scope).toExcept

/-- A comparison with a day, as a comparison with its first instant or with
that of the next day. -/
def splitDay (session : Session) (scope : Scope) (m : Mark) (op : Comparison) (left : FieldRef)
    (text : String) (right : Span) : Except Error Expr := do
  let t ← session.instant text right
  ensure (session.zone.isMidnight t) (.located .nonZeroTime m.span)
  match session.zone.addDays? t 1 with
  | none => .error (.located .invalidDate right)
  | some next =>
      let first := session.dateLiteral t right
      let following := session.dateLiteral next right
      let both (connective : Connective) (low high : Comparison) : Except Error Expr :=
        ((Expr.join connective [Expr.compare low left.reference first,
          Expr.compare high left.reference following]).bind session.schema scope).toExcept
      let condition ← match op with
        | .equals => both .and .greaterOrEquals .less
        | .notEquals => both .or .less .greaterOrEquals
        | .less | .greaterOrEquals => pure (Expr.compare op left first)
        | .greater => pure (Expr.compare .greaterOrEquals left following)
        | .lessOrEquals => pure (Expr.compare .less left following)
        | _ => .error (.located .invalidConditionalOperator m.span)
      return condition.withMark m

def reduceCondition (session : Session) (again : Reduction) (scope : Scope) (m : Mark)
    (op : Comparison) (left : FieldRef) (right : Expr) : Except Error Expr := do
  if op = .oneOf then
    match right with
    | .list _ items => again scope (alternatives m left items)
    | _ => .error (.located .expectingLeftBracket right.span)
  else if op.isSearch && right.literal? == some "" then
    return .truth { span := m.span } true
  else
    let definition ← session.definition left
    let text := right.literal?.filter fun text => !text.isEmpty
    match text with
    | some text =>
        if definition.id = CoreField.teamProject then
          session.projectCondition scope m op left text right.span
        else if session.settings.dayPrecision && left.type == .date then
          session.splitDay scope m op left text right.span
        else return .condition m op left right
    | none =>
        if CoreField.alwaysHasValue definition.id && op == .notEquals
            && right.literal? == some "" then
          return .truth { span := m.span } true
        else return .condition m op left right

/-- The reduction of a session; `again` simplifies what it makes. -/
def reduce (session : Session) (again : Reduction) : Reduction
  | scope, .condition m op left right => session.reduceCondition again scope m op left right
  | _, .var m v => .ok (session.inlineVariable m v)
  | scope, .arithmetic m op left right type => session.foldArithmetic scope m op left right type
  | _, e => .ok e

/-- Simplification in a session.  A list is the only thing that is simplified
again, and what it makes holds no list, so two rounds reach everything. -/
def simplify (session : Session) : Reduction :=
  Expr.simplifyRounds session.reduce 2

end TrackerQuery.Session

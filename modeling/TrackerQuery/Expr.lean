import TrackerQuery.Operator
import TrackerQuery.Span

/-!
# Expressions

The expressions of a query: constants, variables, field references, conditions
and their boolean combinations.  Each carries its place in the query text and
whether it was written in parentheses.  Names are first as written; resolving
them against a schema fills in identities and types.
-/

namespace TrackerQuery

inductive DataType where
  | unknown
  | void
  | bool
  | numeric
  | date
  | string
  | table
  | guid
  deriving DecidableEq, Repr, Inhabited

namespace DataType

def render : DataType → String
  | .unknown => "unknown"
  | .void => "void"
  | .bool => "bool"
  | .numeric => "numeric"
  | .date => "date"
  | .string => "string"
  | .table => "table"
  | .guid => "guid"

def all : List DataType :=
  [.unknown, .void, .bool, .numeric, .date, .string, .table, .guid]

end DataType

/-- The sort direction of a field in an `order by` list. -/
inductive Direction where
  | unspecified
  | ascending
  | descending
  deriving DecidableEq, Repr, Inhabited

/-- A field as a query names it. -/
structure FieldRef where
  /-- The work item a link query means: its source or its target. -/
  qualifier : Option String := none
  name : String
  direction : Direction := .unspecified
  /-- The field the name stands for, once resolved. -/
  id : Option Int := none
  type : DataType := .unknown
  span : Span := {}
  deriving DecidableEq, Repr, Inhabited

namespace FieldRef

def qualifierText (field : FieldRef) : String :=
  field.qualifier.getD ""

/-- The same field without a sort direction. -/
def reference (field : FieldRef) : FieldRef :=
  { field with direction := .unspecified }

end FieldRef

/-- A macro such as `@me`. -/
structure Variable where
  name : String
  /-- The canonical name, once resolved. -/
  target : Option String := none
  type : DataType := .unknown
  deriving DecidableEq, Repr, Inhabited

/-- Where an expression stands and whether parentheses are around it. -/
structure Mark where
  span : Span := {}
  parens : Bool := false
  deriving DecidableEq, Repr, Inhabited

/-- The connective of a list of operands. -/
inductive Connective where
  | and
  | or
  deriving DecidableEq, Repr, Inhabited

inductive Expr where
  | string (mark : Mark) (value : String)
  /-- A number keeps the text it was written with. -/
  | number (mark : Mark) (value : String)
  /-- `true` or `false` as written. -/
  | boolean (mark : Mark) (value : Bool)
  /-- A truth value that simplification arrived at. -/
  | truth (mark : Mark) (value : Bool)
  | var (mark : Mark) (target : Variable)
  | field (mark : Mark) (target : FieldRef)
  /-- The right side of `in`. -/
  | list (mark : Mark) (items : List Expr)
  | condition (mark : Mark) (op : Comparison) (left : FieldRef) (right : Expr)
  | arithmetic (mark : Mark) (op : Arithmetic) (left right : Expr) (type : DataType)
  | junction (mark : Mark) (connective : Connective) (operands : List Expr)
  | not (mark : Mark) (operand : Expr)
  | ever (mark : Mark) (operand : Expr)
  deriving BEq, Repr, Inhabited

namespace Expr

def mark : Expr → Mark
  | .string m _ | .number m _ | .boolean m _ | .truth m _ | .var m _ | .field m _
  | .list m _ | .condition m _ _ _ | .arithmetic m _ _ _ _ | .junction m _ _ | .not m _
  | .ever m _ => m

def withMark (m : Mark) : Expr → Expr
  | .string _ value => .string m value
  | .number _ value => .number m value
  | .boolean _ value => .boolean m value
  | .truth _ value => .truth m value
  | .var _ v => .var m v
  | .field _ f => .field m f
  | .list _ items => .list m items
  | .condition _ op left right => .condition m op left right
  | .arithmetic _ op left right type => .arithmetic m op left right type
  | .junction _ connective operands => .junction m connective operands
  | .not _ operand => .not m operand
  | .ever _ operand => .ever m operand

def span (e : Expr) : Span :=
  e.mark.span

def parens (e : Expr) : Bool :=
  e.mark.parens

def withSpan (e : Expr) (span : Span) : Expr :=
  e.withMark { e.mark with span }

def withParens (e : Expr) (parens : Bool) : Expr :=
  e.withMark { e.mark with parens }

/-! ## Expressions placed where their parts are -/

def ofField (f : FieldRef) : Expr :=
  .field { span := f.span } f

def compare (op : Comparison) (left : FieldRef) (right : Expr) : Expr :=
  .condition { span := left.span.cover right.span } op left right

def combine (op : Arithmetic) (left right : Expr) : Expr :=
  .arithmetic { span := left.span.cover right.span } op left right .unknown

def join (connective : Connective) (operands : List Expr) : Expr :=
  .junction { span := .coverAll (operands.map span) } connective operands

def negate (operand : Expr) : Expr :=
  .not { span := operand.span } operand

def once (operand : Expr) : Expr :=
  .ever { span := operand.span } operand

/-! ## Properties read off the shape -/

mutual

/-- The type of the value; a list has the type that all its items share. -/
def dataType : Expr → DataType
  | .string _ _ => .string
  | .number _ _ => .numeric
  | .boolean _ _ | .truth _ _ => .bool
  | .var _ v => v.type
  | .field _ f => f.type
  | .list _ items => (commonType items).getD .unknown
  | .arithmetic _ _ _ _ type => type
  | .condition .. | .junction .. | .not .. | .ever .. => .bool

/-- The type that all items have. -/
def commonType : List Expr → Option DataType
  | [] => none
  | e :: es => if allOfType e.dataType es then some e.dataType else none

def allOfType (type : DataType) : List Expr → Bool
  | [] => true
  | e :: es => e.dataType == type && allOfType type es

end

mutual

/-- The value is known without looking at a work item. -/
def isConst : Expr → Bool
  | .string .. | .number .. | .boolean .. | .truth .. | .var .. => true
  | .arithmetic _ _ left right _ => left.isConst && right.isConst
  | .list _ items => allConst items
  | _ => false

def allConst : List Expr → Bool
  | [] => true
  | e :: es => e.isConst && allConst es

end

/-- A single value, neither a list nor a truth of a work item. -/
def isScalar : Expr → Bool
  | .string .. | .number .. | .boolean .. | .truth .. | .var .. | .field ..
  | .arithmetic .. => true
  | _ => false

/-- The text of a literal. -/
def literal? : Expr → Option String
  | .string _ value | .number _ value => some value
  | .boolean _ value | .truth _ value => some (if value then "true" else "false")
  | _ => none

def truth? : Expr → Option Bool
  | .truth _ value => some value
  | _ => none

def isCondition : Expr → Bool
  | .condition .. => true
  | _ => false

def precedence : Expr → Precedence
  | .arithmetic .. => .add
  | .condition .. => .comparison
  | .not .. | .ever .. => .unary
  | .junction _ .and _ => .and
  | .junction _ .or _ => .or
  | .list .. => .comma
  | _ => .operand

/-- The expressions directly below, in the order of the text. -/
def children : Expr → List Expr
  | .list _ items => items
  | .junction _ _ operands => operands
  | .not _ operand | .ever _ operand => [operand]
  | .condition _ _ _ right => [right]
  | .arithmetic _ _ left right _ => [left, right]
  | _ => []

end Expr

end TrackerQuery

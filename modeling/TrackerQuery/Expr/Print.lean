import TrackerQuery.Expr
import TrackerQuery.Text.Split
import TrackerQuery.Token.Scan

/-!
# Printing expressions

Every expression prints as query text.  Parentheses stand where they were
written and where a part holds weaker than its place allows.
-/

namespace TrackerQuery

/-- Words that are no bare names. -/
def reservedWords : List String :=
  ["select", "from", "where", "group", "order", "by", "asof", "mode", "and", "or", "not",
   "ever", "never", "in", "under", "contains", "words", "asc", "desc", "true", "false"]

/-- A bare name is not reserved, starts like a name, and has name characters
between its dots. -/
def needsBrackets (name : String) : Bool :=
  let cs := name.toList
  let starts := cs.head?.any Scan.isNameStart
  let parts := (Text.splitChars (· == '.') cs).all fun part => !part.isEmpty && part.all Scan.isNameChar
  !starts || !parts || reservedWords.any (Text.sameIgnoringCase · name)

def renderName (name : String) : String :=
  if needsBrackets name then s!"[{name}]" else name

def FieldRef.render (field : FieldRef) : String :=
  let qualifier := match field.qualifier with
    | some qualifier => renderName qualifier ++ "."
    | none => ""
  let direction := match field.direction with
    | .ascending => " asc"
    | .descending => " desc"
    | .unspecified => ""
  s!"{qualifier}[{field.name}]{direction}"

namespace Expr

/-- The text of a part in a place that takes what holds at least as strongly
as `limit`. -/
def enclose (limit : Precedence) (part : Expr) (text : String) : String :=
  if part.precedence.weaker limit && !part.parens then s!"({text})" else text

def separator : Connective → String
  | .and => " and "
  | .or => " or "

def limit : Connective → Precedence
  | .and => .and
  | .or => .or

def parenthesize (parens : Bool) (text : String) : String :=
  if parens then s!"({text})" else text

def renderBool (value : Bool) : String :=
  if value then "true" else "false"

mutual

def render : Expr → String
  | .string m value => parenthesize m.parens (Token.quoted value)
  | .number m value => parenthesize m.parens value
  | .boolean m value | .truth m value => parenthesize m.parens (renderBool value)
  | .var m v => parenthesize m.parens s!"@{v.name}"
  | .field m f => parenthesize m.parens f.render
  | .list m items => parenthesize m.parens (", ".intercalate (renderAll .add items))
  | .condition m op left right =>
      parenthesize m.parens <|
        if op = .oneOf then s!"{left.render} {op.render} ({enclose .comma right right.render})"
        else s!"{left.render} {op.render} {enclose .add right right.render}"
  | .arithmetic m op left right _ =>
      parenthesize m.parens <|
        s!"{enclose .add left left.render} {op.render} {enclose .operand right right.render}"
  | .junction m connective operands =>
      parenthesize m.parens <|
        (separator connective).intercalate (renderAll (limit connective) operands)
  | .not m operand => parenthesize m.parens s!"not {enclose .unary operand operand.render}"
  | .ever m operand => parenthesize m.parens s!"ever {enclose .unary operand operand.render}"

def renderAll (limit : Precedence) : List Expr → List String
  | [] => []
  | e :: es => enclose limit e e.render :: renderAll limit es

end

end Expr

end TrackerQuery

import TrackerQuery.Expr
import TrackerQuery.Token.Stream

/-!
# The grammar of expressions

```text
filter     := conjunction (('or' | '||') conjunction)*
conjunction := operand (('and' | '&&') operand)*
operand    := ('not' | '!' | 'ever' | 'never') operand | '(' filter ')' | condition
condition  := field ('not' | 'ever' | 'never')* comparison value
expression := value (('+' | '-') value)*
```

Parentheses and leading operators nest at most `maxNesting` deep, so what is
left of that budget is the argument the grammar recurses on.
-/

namespace TrackerQuery

/-- The deepest nesting of parentheses and leading operators, the longest
chain of arithmetic, and the most operators between a field and its
comparison. -/
def maxNesting : Nat := 128

namespace Expr

open TrackerQuery.Parser

/-! ## Fields and values -/

/-- A field name, or a qualifier, a dot and a field name. -/
def fieldRef? (tokens : List Token) : Option (FieldRef × List Token) := do
  let (first, rest) ← token? Token.isName tokens
  match operation? "." rest with
  | none => return ({ name := first.value, span := first.span }, rest)
  | some (_, rest) =>
      let (second, rest) ← token? Token.isName rest
      return ({ qualifier := some first.value, name := second.value,
                span := first.span.cover second.span }, rest)

/-- The constant that one token denotes. -/
def ofToken? (token : Token) : Option Expr :=
  let mark : Mark := { span := token.span }
  match token.kind with
  | .number => some (.number mark token.value)
  | .string => some (.string mark token.value)
  | .variable => some (.var mark { name := token.value })
  | .boolean => some (.boolean mark (Text.sameIgnoringCase token.value "true"))
  | _ => none

def value? : List Token → Option (Expr × List Token)
  | [] => none
  | token :: rest => (ofToken? token).map (·, rest)

/-- A signed number right after a value is an operator and its operand. -/
def splitSigned? (token : Token) : Option (Arithmetic × Expr) :=
  match token.value.toList with
  | sign :: digits =>
      match Arithmetic.ofSpelling (String.singleton sign) with
      | .missing => none
      | op =>
          let span : Span := ⟨token.span.start + 1, token.span.stop⟩
          some (op, .number { span } (String.ofList digits))
  | [] => none

/-- An arithmetic operator and the operand after it. -/
def nextOperation? : List Token → Option (Arithmetic × Expr × List Token)
  | [] => none
  | token :: rest =>
      match token.kind with
      | .number => (splitSigned? token).map fun (op, operand) => (op, operand, rest)
      | .operation =>
          match Arithmetic.ofSpelling token.value with
          | .missing => none
          | op => (value? rest).map fun (operand, rest) => (op, operand, rest)
      | _ => none

/-- The operations that follow `left`, grouped to the left; `budget` of them
are allowed. -/
def arithmeticFrom (left : Expr) : (budget : Nat) → Parser Expr
  | budget, tokens =>
      match nextOperation? tokens with
      | none => .ok (left, tokens)
      | some (op, operand, rest) =>
          match budget with
          | 0 => fail .tooComplexExpression rest
          | budget + 1 => arithmeticFrom (combine op left operand) budget rest

/-- An expression over values; `cause` is what is missing where none starts. -/
def expression (cause : Fault) : Parser Expr := fun tokens => do
  let (first, rest) ← expect cause value? tokens
  arithmeticFrom first maxNesting rest

/-! ## Conditions -/

/-- An operator in front of an operand or between a field and its
comparison. -/
inductive Leading where
  | not
  | ever
  | never
  deriving DecidableEq, Repr

namespace Leading

def ofToken? (token : Token) : Option Leading :=
  if token.isKeyword "not" then some .not
  else if token.isKeyword "ever" then some .ever
  else if token.isKeyword "never" then some .never
  else none

def apply (operand : Expr) : Leading → Expr
  | .not => negate operand
  | .ever => once operand
  | .never => negate (once operand)

end Leading

/-- The leading operator of an operand; here `!` means `not`. -/
def leading? : List Token → Option (Leading × Span × List Token)
  | [] => none
  | token :: rest =>
      match Leading.ofToken? token with
      | some op => some (op, token.span, rest)
      | none => if token.isOperation "!" then some (.not, token.span, rest) else none

/-- The words that stand between a field and its comparison. -/
def leadingRun : List Token → List Leading
  | [] => []
  | token :: rest =>
      match Leading.ofToken? token with
      | some op => op :: leadingRun rest
      | none => []

/-- The comparison that starts at the first token.  After a leading operator
only a word may follow, and without one the comparison is `=`. -/
def comparison (afterLeading : Bool) : Parser Comparison := fun tokens =>
  let otherwise : Except Error (Comparison × List Token) :=
    if afterLeading then .ok (.equals, tokens) else fail .expectingComparisonOperator tokens
  match tokens with
  | [] => otherwise
  | token :: rest =>
      if token.kind == .name || (token.kind == .operation && !afterLeading) then
        match Comparison.ofSpelling token.value with
        | .missing => otherwise
        | .oneOf =>
            match keyword? "group" rest with
            | some (_, rest) => .ok (.inGroup, rest)
            | none => .ok (.oneOf, rest)
        | .contains =>
            match keyword? "words" rest with
            | some (_, rest) => .ok (.containsWords, rest)
            | none => .ok (.contains, rest)
        | op => .ok (op, rest)
      else otherwise

/-- The values of an `in` list, with their parentheses. -/
def valueList : Parser Expr :=
  bracketed (expression .expectingValue) fun span items => .list { span } items

/-- What may stand on the right of a comparison. -/
def rightSide : Comparison → Parser Expr
  | .inGroup, tokens | .under, tokens => expect .expectingValue value? tokens
  | .oneOf, tokens => valueList tokens
  | _, tokens =>
      match fieldRef? tokens with
      | some (other, rest) => .ok (ofField other, rest)
      | none => expression .expectingFieldOrExpression tokens

/-- A field, the operators that belong in front of the condition, the
comparison and its right side. -/
def condition? : Parser Expr := fun tokens => do
  let (left, rest) ← expect .expectingCondition fieldRef? tokens
  let operators := leadingRun rest
  if maxNesting < operators.length then
    fail .tooComplexExpression (rest.drop (maxNesting + 1))
  let (op, rest) ← comparison (!operators.isEmpty) (rest.drop operators.length)
  let (right, rest) ← rightSide op rest
  return (operators.foldr (fun leading e => leading.apply e) (compare op left right), rest)

/-! ## Boolean combinations -/

/-- A single operand stays as it is. -/
def joined (connective : Connective) : List Expr → Expr
  | [single] => single
  | operands => join connective operands

def conjunction (operand : Parser Expr) : Parser Expr := fun tokens => do
  let (operands, rest) ← sepBy operand (fun t => t.isKeyword "and" || t.isOperation "&&") tokens
  return (joined .and operands, rest)

def disjunction (operand : Parser Expr) : Parser Expr := fun tokens => do
  let (operands, rest) ←
    sepBy (conjunction operand) (fun t => t.isKeyword "or" || t.isOperation "||") tokens
  return (joined .or operands, rest)

/-- One operand of `and`, nested at most `budget` deep. -/
def operand : (budget : Nat) → Parser Expr
  | budget, tokens =>
      match leading? tokens with
      | some (leading, span, rest) =>
          match budget with
          | 0 => fail .tooComplexExpression rest
          | budget + 1 => do
              let (inner, rest) ← operand budget rest
              return ((leading.apply inner).withSpan (span.cover inner.span), rest)
      | none =>
          match operation? "(" tokens with
          | some (opening, rest) =>
              match budget with
              | 0 => fail .tooComplexExpression rest
              | budget + 1 => do
                  let (inner, rest) ← disjunction (operand budget) rest
                  let (closing, rest) ← expect .expectingRightBracket (operation? ")") rest
                  return (inner.withMark ⟨opening.span.cover closing.span, true⟩, rest)
          | none => condition? tokens

/-- The expression of a `where` clause. -/
def filter : Parser Expr :=
  disjunction (operand maxNesting)

end Expr

end TrackerQuery

import TrackerQuery.Text.Case

/-!
# Operators

The comparison and arithmetic operators of conditions, their spellings, and
the operators that the query document has for them.
-/

namespace TrackerQuery

inductive Comparison where
  /-- No operator was recognised. -/
  | missing
  | equals
  | notEquals
  | less
  | greater
  | lessOrEquals
  | greaterOrEquals
  | under
  | oneOf
  | contains
  | containsWords
  | inGroup
  deriving DecidableEq, Repr, Inhabited

namespace Comparison

/-- The spellings of one word or symbol; several may mean the same operator. -/
def spellings : List (String × Comparison) :=
  [("=", .equals), ("==", .equals), ("<>", .notEquals), ("!=", .notEquals), ("<", .less),
   (">", .greater), ("<=", .lessOrEquals), ("=<", .lessOrEquals), (">=", .greaterOrEquals),
   ("=>", .greaterOrEquals), ("under", .under), ("in", .oneOf), ("contains", .contains)]

/-- The operator spelled by one token. -/
def ofSpelling (text : String) : Comparison :=
  match spellings.find? fun entry => Text.sameIgnoringCase entry.1 text with
  | some (_, op) => op
  | none => .missing

/-- The operator as query text. -/
def render : Comparison → String
  | .missing => ""
  | .equals => "="
  | .notEquals => "<>"
  | .less => "<"
  | .greater => ">"
  | .lessOrEquals => "<="
  | .greaterOrEquals => ">="
  | .under => "under"
  | .oneOf => "in"
  | .contains => "contains"
  | .containsWords => "contains words"
  | .inGroup => "in group"

/-- The operator written as `text`: spelled by one token in any case, or of two
words exactly as it is rendered. -/
def ofText : String → Comparison
  | "contains words" => .containsWords
  | "in group" => .inGroup
  | text => ofSpelling text

def ordinal : Comparison → Nat
  | .missing => 0
  | .equals => 1
  | .notEquals => 2
  | .less => 3
  | .greater => 4
  | .lessOrEquals => 5
  | .greaterOrEquals => 6
  | .under => 7
  | .oneOf => 8
  | .contains => 9
  | .containsWords => 10
  | .inGroup => 11

def isEquality (op : Comparison) : Bool :=
  op == .equals || op == .notEquals

/-- The operator looks for text inside a field. -/
def isSearch (op : Comparison) : Bool :=
  op == .contains || op == .containsWords

/-- The document operator of a condition that stands under `not` and `ever` as
the flags say; `none` marks what the server cannot express. -/
def documentOperator : (op : Comparison) → (negated ever : Bool) → Option String
  | .equals, false, false => some "equals"
  | .equals, true, false => some "notEquals"
  | .equals, false, true => some "ever"
  | .notEquals, false, false => some "notEquals"
  | .notEquals, true, false => some "equals"
  | .notEquals, true, true => some "ever"
  | .less, false, false => some "less"
  | .less, true, false => some "equalsGreater"
  | .greater, false, false => some "greater"
  | .greater, true, false => some "equalsLess"
  | .lessOrEquals, false, false => some "equalsLess"
  | .lessOrEquals, true, false => some "greater"
  | .greaterOrEquals, false, false => some "equalsGreater"
  | .greaterOrEquals, true, false => some "less"
  | .under, false, false => some "under"
  | .under, true, false => some "notUnder"
  | .contains, false, false => some "contains"
  | .contains, true, false => some "notContains"
  | .contains, false, true => some "everContains"
  | .contains, true, true => some "neverContains"
  | .containsWords, false, false => some "containsWords"
  | .containsWords, true, false => some "notContainsWords"
  | .containsWords, false, true => some "everContainsWords"
  | .containsWords, true, true => some "neverContainsWords"
  | .inGroup, false, false => some "equals"
  | .inGroup, true, false => some "notequals"
  | _, _, _ => none

end Comparison

inductive Arithmetic where
  /-- No operator was recognised. -/
  | missing
  | add
  | subtract
  deriving DecidableEq, Repr, Inhabited

namespace Arithmetic

def ofSpelling : String → Arithmetic
  | "+" => .add
  | "-" => .subtract
  | _ => .missing

def render : Arithmetic → String
  | .missing => ""
  | .add => "+"
  | .subtract => "-"

end Arithmetic

/-- How strongly an expression holds its parts together, strongest first.  A
part that holds weaker than its place allows needs parentheses. -/
inductive Precedence where
  | operand
  | add
  | comparison
  | unary
  | and
  | or
  | comma
  deriving DecidableEq, Repr, Inhabited

namespace Precedence

def rank : Precedence → Nat
  | .operand => 0
  | .add => 1
  | .comparison => 2
  | .unary => 3
  | .and => 4
  | .or => 5
  | .comma => 6

/-- `a` holds weaker than `b`. -/
def weaker (a b : Precedence) : Bool :=
  b.rank < a.rank

end Precedence

end TrackerQuery

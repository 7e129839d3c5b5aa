import TrackerQuery.Select.Parse

/-!
# The grammar of queries

What a list of tokens can be derived as, and the tree of the derivation.  The
grammar says nothing about how tokens are read: it takes no token back, looks at
none ahead, and leaves open which names are admitted as `named`.  Trees carry the
places of their tokens.
-/

namespace TrackerQuery.Grammar

/-- One or more items with a separator between each two. -/
inductive Separated {α : Type} (item : List Token → α → Prop) (separator : Token → Bool) :
    List Token → List α → Prop
  | one {ts a} (hitem : item ts a) : Separated item separator ts [a]
  | more {ts a t us as} (hitem : item ts a) (hseparator : separator t = true)
      (hothers : Separated item separator us as) :
      Separated item separator (ts ++ t :: us) (a :: as)

def isComma (t : Token) : Bool :=
  t.isOperation ","

def isAnd (t : Token) : Bool :=
  t.isKeyword "and" || t.isOperation "&&"

def isOr (t : Token) : Bool :=
  t.isKeyword "or" || t.isOperation "||"

/-! ## Values -/

inductive Value : List Token → Expr → Prop
  | number {t} (hkind : t.kind = .number) : Value [t] (.number { span := t.span } t.value)
  | string {t} (hkind : t.kind = .string) : Value [t] (.string { span := t.span } t.value)
  | var {t} (hkind : t.kind = .variable) : Value [t] (.var { span := t.span } { name := t.value })
  | boolean {t} (hkind : t.kind = .boolean) :
      Value [t] (.boolean { span := t.span } (Text.sameIgnoringCase t.value "true"))

/-- An arithmetic operator with the operand after it. -/
inductive Operation : List Token → Arithmetic → Expr → Prop
  | spaced {t op ts right} (hop : op ≠ .missing) (hspelled : t.isOperation op.render = true)
      (hright : Value ts right) : Operation (t :: ts) op right
  /-- The sign of a number is an operator here. -/
  | signed {t op digits} (hop : op ≠ .missing) (hkind : t.kind = .number)
      (hvalue : t.value = op.render ++ digits) :
      Operation [t] op (.number { span := ⟨t.span.start + 1, t.span.stop⟩ } digits)

/-- Values with at most `n` operators between them, grouped to the left. -/
inductive Expression : (n : Nat) → List Token → Expr → Prop
  | value {n ts e} (hvalue : Value ts e) : Expression n ts e
  | operation {n ts left us op right} (hleft : Expression n ts left)
      (hoperation : Operation us op right) :
      Expression (n + 1) (ts ++ us) (Expr.combine op left right)

inductive ValueList : List Token → Expr → Prop
  | mk {opening ts items closing} (hopening : opening.isOperation "(" = true)
      (hitems : Separated (Expression maxNesting) isComma ts items)
      (hclosing : closing.isOperation ")" = true) :
      ValueList (opening :: (ts ++ [closing]))
        (.list { span := opening.span.cover closing.span } items)

/-! ## Conditions -/

def word : Expr.Leading → String
  | .not => "not"
  | .ever => "ever"
  | .never => "never"

inductive LeadingWords : List Token → List Expr.Leading → Prop
  | nil : LeadingWords [] []
  | cons {t op ts ops} (hword : t.isKeyword (word op) = true) (hothers : LeadingWords ts ops) :
      LeadingWords (t :: ts) (op :: ops)

/-- The text is a spelling of the operator, in any case. -/
def Spells (text : String) (op : Comparison) : Prop :=
  ∃ spelling, (spelling, op) ∈ Comparison.spellings ∧ Text.sameIgnoringCase spelling text = true

/-- An operator of one token; after leading operators only words are taken. -/
inductive OperatorToken : (afterLeading : Bool) → Token → Comparison → Prop
  | symbol {t op} (hkind : t.kind = .operation) (hspells : Spells t.value op) :
      OperatorToken false t op
  | word {afterLeading t op} (hkind : t.kind = .name) (hspells : Spells t.value op) :
      OperatorToken afterLeading t op

/-- A comparison; after leading operators `=` is meant where there is none. -/
inductive Operator : (afterLeading : Bool) → List Token → Comparison → Prop
  | omitted : Operator true [] .equals
  | single {afterLeading t op} (hfirst : OperatorToken afterLeading t op) :
      Operator afterLeading [t] op
  | inGroup {afterLeading t u} (hfirst : OperatorToken afterLeading t .oneOf)
      (hsecond : u.isKeyword "group" = true) : Operator afterLeading [t, u] .inGroup
  | containsWords {afterLeading t u} (hfirst : OperatorToken afterLeading t .contains)
      (hsecond : u.isKeyword "words" = true) : Operator afterLeading [t, u] .containsWords

/-- Paths, groups and lists have right sides of their own. -/
def takesOperand (op : Comparison) : Bool :=
  op != .inGroup && op != .under && op != .oneOf

section Names

variable (named : Token → Prop)

inductive Field : List Token → FieldRef → Prop
  | plain {t} (hname : named t) : Field [t] { name := t.value, span := t.span }
  | qualified {q dot t} (hqualifier : named q) (hdot : dot.isOperation "." = true)
      (hname : named t) :
      Field [q, dot, t]
        { qualifier := some q.value, name := t.value, span := q.span.cover t.span }

inductive RightSide : Comparison → List Token → Expr → Prop
  | group {ts e} (hvalue : Value ts e) : RightSide .inGroup ts e
  | path {ts e} (hvalue : Value ts e) : RightSide .under ts e
  | list {ts e} (hlist : ValueList ts e) : RightSide .oneOf ts e
  | field {op ts other} (hop : takesOperand op = true) (hfield : Field named ts other) :
      RightSide op ts (Expr.ofField other)
  | expression {op ts e} (hop : takesOperand op = true)
      (hexpression : Expression maxNesting ts e) : RightSide op ts e

inductive Condition : List Token → Expr → Prop
  | mk {ts left us ops vs op ws right} (hleft : Field named ts left)
      (hleading : LeadingWords us ops) (hcount : ops.length ≤ maxNesting)
      (hop : Operator (!ops.isEmpty) vs op) (hright : RightSide named op ws right) :
      Condition (ts ++ (us ++ (vs ++ ws)))
        (ops.foldr (fun leading e => leading.apply e) (Expr.compare op left right))

/-! ## Boolean combinations -/

def Conjunction (operand : List Token → Expr → Prop) (ts : List Token) (e : Expr) : Prop :=
  ∃ operands, Separated operand isAnd ts operands ∧ e = Expr.joined .and operands

def Disjunction (operand : List Token → Expr → Prop) (ts : List Token) (e : Expr) : Prop :=
  ∃ operands, Separated (Conjunction operand) isOr ts operands ∧ e = Expr.joined .or operands

inductive Nested (inner : List Token → Expr → Prop) : List Token → Expr → Prop
  | condition {ts e} (hcondition : Condition named ts e) : Nested inner ts e
  | leading {t op ts e} (hword : t.isKeyword (word op) = true) (hinner : inner ts e) :
      Nested inner (t :: ts) ((op.apply e).withSpan (t.span.cover e.span))
  | exclamation {t ts e} (hmark : t.isOperation "!" = true) (hinner : inner ts e) :
      Nested inner (t :: ts) ((Expr.negate e).withSpan (t.span.cover e.span))
  | parens {opening ts e closing} (hopening : opening.isOperation "(" = true)
      (hinner : Disjunction inner ts e) (hclosing : closing.isOperation ")" = true) :
      Nested inner (opening :: (ts ++ [closing]))
        (e.withMark ⟨opening.span.cover closing.span, true⟩)

/-- An operand of `and` with at most `depth` parentheses and operators around
each condition. -/
def Operand : (depth : Nat) → List Token → Expr → Prop
  | 0 => Condition named
  | depth + 1 => Nested named (Operand depth)

def Filter : List Token → Expr → Prop :=
  Disjunction (Operand named maxNesting)

/-! ## Clauses -/

inductive OrderedField : List Token → FieldRef → Prop
  | plain {ts field} (hfield : Field named ts field) : OrderedField ts field
  | ascending {ts field t} (hfield : Field named ts field) (hword : t.isKeyword "asc" = true) :
      OrderedField (ts ++ [t])
        { field with direction := .ascending, span := field.span.cover t.span }
  | descending {ts field t} (hfield : Field named ts field)
      (hword : t.isKeyword "desc" = true) :
      OrderedField (ts ++ [t])
        { field with direction := .descending, span := field.span.cover t.span }

def ListItem : FieldListKind → List Token → FieldRef → Prop
  | .order => OrderedField named
  | _ => Field named

inductive Fields : FieldListKind → List Token → FieldList → Prop
  | mk {kind ts fields} (hfields : Separated (ListItem named kind) isComma ts fields) :
      Fields kind ts { kind, fields, span := .coverAll (fields.map FieldRef.span) }

inductive ModeName : List Token → ModeItem → Prop
  | mk {t} (hname : named t) : ModeName [t] ⟨t.value, t.span⟩

inductive Modes : List Token → ModeList → Prop
  | mk {opening ts items closing} (hopening : opening.isOperation "(" = true)
      (hitems : Separated (ModeName named) isComma ts items)
      (hclosing : closing.isOperation ")" = true) :
      Modes (opening :: (ts ++ [closing])) ⟨items, opening.span.cover closing.span⟩

/-- A clause, which adds to a query what it does not have yet. -/
inductive Clause : List Token → Select → Select → Prop
  | table {word t} {query : Select} (hword : word.isKeyword "from" = true)
      (hfirst : query.table = none) (hname : named t) :
      Clause [word, t] query { query with table := some { name := t.value, span := t.span } }
  | filter {word ts e} {query : Select} (hword : word.isKeyword "where" = true)
      (hfirst : query.filter = none) (hfilter : Filter named ts e) :
      Clause (word :: ts) query { query with filter := some e }
  | grouping {word by_ ts list} {query : Select} (hword : word.isKeyword "group" = true)
      (hby : by_.isKeyword "by" = true) (hfirst : query.grouping = none)
      (hlist : Fields named .group ts list) :
      Clause (word :: by_ :: ts) query { query with grouping := some list }
  | ordering {word by_ ts list} {query : Select} (hword : word.isKeyword "order" = true)
      (hby : by_.isKeyword "by" = true) (hfirst : query.ordering = none)
      (hlist : Fields named .order ts list) :
      Clause (word :: by_ :: ts) query { query with ordering := some list }
  | asOf {word ts e} {query : Select} (hword : word.isKeyword "asof" = true)
      (hfirst : query.asOf = none) (hvalue : Value ts e) :
      Clause (word :: ts) query { query with asOf := some e }
  | modes {word ts list} {query : Select} (hword : word.isKeyword "mode" = true)
      (hfirst : query.modes = none) (hmodes : Modes named ts list) :
      Clause (word :: ts) query { query with modes := some list }

inductive Clauses : List Token → Select → Select → Prop
  | nil {query} : Clauses [] query query
  | cons {ts us query next last} (hclause : Clause named ts query next)
      (hothers : Clauses us next last) : Clauses (ts ++ us) query last

inductive Columns : List Token → Option FieldList → Prop
  | all {t} (hstar : t.isOperation "*" = true) : Columns [t] none
  | fields {ts list} (hlist : Fields named .select ts list) : Columns ts (some list)

def wholeSpan (word : Token) (others : List Token) : Span :=
  word.span.cover (((word :: others).getLast?.map Token.span).getD word.span)

inductive Query : List Token → Select → Prop
  | mk {word ts columns us query} (hword : word.isKeyword "select" = true)
      (hcolumns : Columns named ts columns) (hclauses : Clauses named us { columns } query) :
      Query (word :: (ts ++ us)) { query with span := wholeSpan word (ts ++ us) }

end Names

section Filter

variable {named : Token → Prop} {ts : List Token} {e : Expr}

theorem Clauses.exists_filter {query last : Select} (h : Clauses named ts query last)
    (hlast : last.filter = some e) :
    query.filter = some e ∨ ∃ us, us <:+: ts ∧ Filter named us e := by
  induction h with
  | nil => exact .inl hlast
  | @cons us vs query next last hclause hothers ih =>
      obtain hnext | ⟨ws, hws, hfilter⟩ := ih hlast
      · cases hclause with
        | @filter word ws e _ hword hfirst hfilter =>
            cases hnext
            exact .inr ⟨ws, ⟨[word], vs, by simp⟩, hfilter⟩
        | _ => exact .inl hnext
      · exact .inr ⟨ws, hws.trans (List.suffix_append us vs).isInfix, hfilter⟩

/-- The filter of a query is read from tokens in a row. -/
theorem Query.exists_filter {query : Select} (h : Query named ts query)
    (hfilter : query.filter = some e) : ∃ us, us <:+: ts ∧ Filter named us e := by
  obtain @⟨word, us, columns, vs, last, hword, hcolumns, hclauses⟩ := h
  obtain hnone | ⟨ws, hws, hread⟩ := hclauses.exists_filter hfilter
  · cases hnone
  · exact ⟨ws, hws.trans ⟨word :: us, [], by simp⟩, hread⟩

end Filter

end TrackerQuery.Grammar

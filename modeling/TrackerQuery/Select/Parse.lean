import TrackerQuery.Expr.Parse
import TrackerQuery.Select
import TrackerQuery.Token.Scan

/-!
# The grammar of queries

```text
query  := 'select' ('*' | fields) clause*
clause := 'from' table | 'where' filter | 'group' 'by' fields
        | 'order' 'by' directed fields | 'asof' value | 'mode' '(' names ')'
```

The clauses come in any order, each at most once, and the whole text has to be
used up.
-/

namespace TrackerQuery

namespace Select

open TrackerQuery.Parser

def tableRef? (tokens : List Token) : Option (TableRef × List Token) :=
  (token? Token.isName tokens).map fun (token, rest) =>
    ({ name := token.value, span := token.span }, rest)

/-- A field with the sort direction that may follow it. -/
def orderedField : Parser FieldRef := fun tokens => do
  let (field, rest) ← expect .expectingFieldName Expr.fieldRef? tokens
  match keyword? "asc" rest with
  | some (word, rest) =>
      return ({ field with direction := .ascending, span := field.span.cover word.span }, rest)
  | none =>
      match keyword? "desc" rest with
      | some (word, rest) =>
          return ({ field with direction := .descending, span := field.span.cover word.span }, rest)
      | none => return (field, rest)

def listItem : FieldListKind → Parser FieldRef
  | .order => orderedField
  | _ => expect .expectingFieldName Expr.fieldRef?

def fieldList (kind : FieldListKind) : Parser FieldList := fun tokens => do
  let (fields, rest) ← sepBy (listItem kind) (·.isOperation ",") tokens
  return ({ kind, fields, span := .coverAll (fields.map FieldRef.span) }, rest)

def modeItem? (tokens : List Token) : Option (ModeItem × List Token) :=
  (token? Token.isName tokens).map fun (token, rest) => (⟨token.value, token.span⟩, rest)

def modeList : Parser ModeList :=
  bracketed (expect .expectingMode modeItem?) fun span items => ⟨items, span⟩

inductive ClauseKind where
  | «from»
  | «where»
  | group
  | order
  | asOf
  | mode
  deriving DecidableEq, Repr

/-- The clause that a keyword begins. -/
def ClauseKind.ofToken? (token : Token) : Option ClauseKind :=
  if token.isKeyword "from" then some .from
  else if token.isKeyword "where" then some .where
  else if token.isKeyword "group" then some .group
  else if token.isKeyword "order" then some .order
  else if token.isKeyword "asof" then some .asOf
  else if token.isKeyword "mode" then some .mode
  else none

/-- Refuses a second clause of a kind, at the last word of its keyword. -/
def once {α : Type} (earlier : Option α) (cause : Fault) (word : Token) : Except Error Unit :=
  Error.ensure earlier.isNone (.located cause word.span)

/-- Reads the clause that `word` begins into the query. -/
def clause (query : Select) (word : Token) : ClauseKind → Parser Select
  | .from, tokens => do
      once query.table .duplicateFrom word
      let (table, rest) ← expect .expectingTableName tableRef? tokens
      return ({ query with table := some table }, rest)
  | .where, tokens => do
      once query.filter .duplicateWhere word
      let (filter, rest) ← Expr.filter tokens
      return ({ query with filter := some filter }, rest)
  | .group, tokens => do
      let (by_, rest) ← expect .expectingBy (keyword? "by") tokens
      once query.grouping .duplicateGroupBy by_
      let (list, rest) ← fieldList .group rest
      return ({ query with grouping := some list }, rest)
  | .order, tokens => do
      let (by_, rest) ← expect .expectingBy (keyword? "by") tokens
      once query.ordering .duplicateOrderBy by_
      let (list, rest) ← fieldList .order rest
      return ({ query with ordering := some list }, rest)
  | .asOf, tokens => do
      once query.asOf .duplicateAsOf word
      let (moment, rest) ← expect .expectingValue Expr.value? tokens
      return ({ query with asOf := some moment }, rest)
  | .mode, tokens => do
      once query.modes .duplicateMode word
      let (modes, rest) ← modeList tokens
      return ({ query with modes := some modes }, rest)

/-- Reads clauses as long as a clause keyword follows. -/
def clauses (query : Select) : Parser Select
  | [] => .ok (query, [])
  | word :: tokens =>
      match ClauseKind.ofToken? word with
      | none => .ok (query, word :: tokens)
      | some kind => do
          let (query, rest) ← clause query word kind tokens
          if rest.length ≤ tokens.length then clauses query rest
          else fail .expectingEndOfString rest
termination_by tokens => tokens.length

/-- Reading may end here: no token is left, or an empty operation comes next. -/
def isTail (rest : List Token) : Bool :=
  rest.head?.all (·.isOperation "")

/-- A whole query; its span reaches to the last token. -/
def ofTokens (tokens : List Token) : Except Error Select := do
  let (word, rest) ← expect .expectingSelect (keyword? "select") tokens
  let (columns, rest) ← match operation? "*" rest with
    | some (_, rest) => pure (none, rest)
    | none => do
        let (list, rest) ← fieldList .select rest
        pure (some list, rest)
  let (query, rest) ← clauses { columns } rest
  unless isTail rest do fail .expectingEndOfString rest
  return { query with span := word.span.cover ((tokens.getLast?.map Token.span).getD word.span) }

/-- The query that a text denotes. -/
def parse (text : String) : Except Error Select := do
  ofTokens (← tokens text)

end Select

end TrackerQuery

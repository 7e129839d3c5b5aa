import TrackerQuery.Calendar.KnownZone
import TrackerQuery.Document
import TrackerQuery.Select.Parse
import TrackerQuery.Select.Simplify
import TrackerQuery.Session.Reduce

/-!
# Compiling queries

The way from the text of a query to the document that the server executes:
reading, resolving, simplifying and writing the document.
-/

namespace TrackerQuery

/-- A compiled query. -/
structure Compiled where
  /-- The query as it was resolved and simplified. -/
  query : Select
  document : Xml.Element
  /-- The columns of the result, by reference name. -/
  displayFields : List String
  sortFields : List SortField
  deriving Inhabited

namespace Session

/-- Resolves a query; beside it stand the macros left to the server. -/
def resolve (session : Session) (query : Select) : Except Error (Select × List String) :=
  (query.resolve session.schema).run []

def bind (session : Session) (query : Select) : Except Error Select :=
  query.bind session.schema

def simplifyQuery (session : Session) (query : Select) : Except Error Select :=
  query.simplifyWith session.simplify

/-- Reads, resolves and simplifies a query. -/
def optimize (session : Session) (text : String) : Except Error Select := do
  session.simplifyQuery (← session.bind (← Select.parse text))

/-- Where unknown macros are left to the server, so is the whole query. -/
def compile (session : Session) (text : String) : Except Error Compiled := do
  let (query, document) ←
    if session.settings.serverSideMacros then do
      let (query, macros) ← session.resolve (← Select.parse text)
      pure (query, textDocument text (session.serverContext macros) query.isLinkQuery
        session.settings.dayPrecision)
    else do
      let query ← session.optimize text
      pure (query, ← session.document query)
  return { query, document
           displayFields := session.displayFields query
           sortFields := session.sortFields query }

end Session

/-- What queries are compiled with. -/
structure Compiler where
  /-- The zones that settings may name. -/
  zones : Calendar.ZoneTable := Calendar.Zone.ofName?
  catalog : Catalog := .core
  settings : Settings := {}
  context : Context := []
  /-- The current time, which `@today` is taken from. -/
  now : Calendar.Instant := ⟨⟨0, 0⟩⟩
  deriving Inhabited

namespace Compiler

def session (compiler : Compiler) : Except Error Session :=
  Session.start compiler.zones compiler.catalog compiler.settings compiler.context compiler.now

/-- Reads and resolves a query.  Its text is judged before the settings are. -/
def bind (compiler : Compiler) (text : String) : Except Error Select := do
  let query ← Select.parse text
  (← compiler.session).bind query

def optimize (compiler : Compiler) (text : String) : Except Error Select := do
  (← compiler.session).optimize text

def compile (compiler : Compiler) (text : String) : Except Error Compiled := do
  (← compiler.session).compile text

end Compiler

end TrackerQuery

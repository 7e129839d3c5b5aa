import TrackerQuery.Session
import TrackerQuery.Xml

/-!
# Documents that carry the text

A query whose macros are left to the server goes there as text, with the values
of its macros beside it.
-/

namespace TrackerQuery

open Xml (Element)

def contextElement (entry : String × ContextValue) : Element :=
  { name := "Context"
    attributes := [("Key", entry.1), ("Value", entry.2.render), ("ValueType", entry.2.typeName)] }

def textDocument (text : String) (context : Context) (isLinkQuery dayPrecision : Bool) : Element :=
  { name := if isLinkQuery then "LinksQuery" else "Query"
    attributes := [("Product", "")]
    children :=
      .ofText "Wiql" text :: .ofText "DayPrecision" (if dayPrecision then "true" else "false")
        :: context.map contextElement }

namespace Session

/-- Adds a macro that the server is to evaluate, under its own name. -/
def leaveToServer (context : Context) (name : String) : Context :=
  if context.has name then context else context ++ [(name, .string name)]

/-- The values that the caller gave, and the macros that resolving a query left
to the server. -/
def serverContext (session : Session) (macros : List String) : Context :=
  macros.foldl leaveToServer session.context

end Session

end TrackerQuery

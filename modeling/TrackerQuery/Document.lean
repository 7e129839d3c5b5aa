import TrackerQuery.Document.Links
import TrackerQuery.Document.Text

/-!
# Query documents

The XML document that the server executes: a `Query` for work items, a
`LinksQuery` with up to three parts for links, or a document that carries the
text of the query for the server to evaluate.  Beside it stand the columns of
the result and its order.
-/

namespace TrackerQuery

open Xml (Element)
open Error (ensure)

/-- A field to sort by and whether its values ascend. -/
structure SortField where
  referenceName : String
  descending : Bool := false
  deriving DecidableEq, Repr, Inhabited

namespace Session

/-- The product that documents name. -/
def product (session : Session) : String :=
  if session.settings.product.isEmpty then session.catalog.product else session.settings.product

/-- Adds the point in time that the query asks about. -/
def setAsOf (session : Session) (query : Select) (root : Element) : Except Error Element := do
  match query.asOf with
  | none => return root
  | some moment =>
      match moment.literal? with
      | some text => return root.set "AsOf" (← session.instant text moment.span).renderUniversal
      | none => .error (.located .invalidDate moment.span)

def incorrectMethod (query : Select) : Error :=
  .fault .incorrectQueryMethod (query.table.map TableRef.span)

/-- The document of a query for work items. -/
def workItemDocument (session : Session) (query : Select) : Except Error Element := do
  ensure (query.mode == .workItems) (incorrectMethod query)
  let filter := query.filter.getD (.truth { span := query.span } true)
  session.setAsOf query
    { name := "Query"
      attributes := [("Product", session.product)]
      children := [← session.element {} filter] }

/-- The name that documents have for a mode of link queries. -/
def linkQueryType? : QueryMode → Option String
  | .linksMustContain => some "mustContain"
  | .linksMayContain | .linksRecursive => some "mayContain"
  | .linksDoesNotContain => some "doesNotContain"
  | .unknown | .workItems => none

/-- The element of operands that all have to hold. -/
def conjunction (session : Session) : List Expr → Except Error Element
  | [operand] => session.element {} operand
  | operands => return groupElement "and" (← session.elements {} operands)

/-- Adds the part of a link query that its operands make, if there are any. -/
def addPart (session : Session) (name : String) (operands : List Expr) (root : Element) :
    Except Error Element := do
  if operands.isEmpty then return root
  return root.push { name, children := [← session.conjunction operands] }

/-- The document of a query for links. -/
def linkDocument (session : Session) (query : Select) : Except Error Element := do
  match linkQueryType? query.mode with
  | none => .error (incorrectMethod query)
  | some type =>
      let root : Element :=
        { name := "LinksQuery", attributes := [("Product", session.product), ("Type", type)] }
      let sides ← Sides.ofFilter query.filter
      let root ← session.addPart "LeftQuery" sides.source root
      let root ←
        if query.mode = .linksRecursive then do
          let id ← session.recursiveLinkType sides.link query.span
          pure (root.set "Recursive" (toString id))
        else session.addPart "LinkQuery" sides.link root
      let root ← session.addPart "RightQuery" sides.target root
      session.setAsOf query root

/-- The document of a resolved and simplified query. -/
def document (session : Session) (query : Select) : Except Error Element :=
  if query.isLinkQuery then session.linkDocument query else session.workItemDocument query

/-! ## Columns and order -/

/-- The columns of the result, by reference name. -/
def displayFields (session : Session) (query : Select) : List String :=
  let definitions := match query.columns with
    | some list => list.fields.filterMap session.definition?
    | none =>
        if query.isLinkQuery then
          [CoreField.id, CoreField.linkType].filterMap session.catalog.fieldById?
        else session.catalog.workItemFields
  definitions.map FieldDefinition.referenceName

/-- The fields of the `order by` list; values ascend unless it says otherwise. -/
def sortFields (session : Session) (query : Select) : List SortField :=
  let fields := (query.ordering.map FieldList.fields).getD []
  fields.filterMap fun field => do
    let definition ← session.definition? field
    return ⟨definition.referenceName, field.direction == .descending⟩

end Session

end TrackerQuery

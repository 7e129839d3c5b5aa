import TrackerQuery.Expr
import TrackerQuery.Text.Blank
import TrackerQuery.Text.Case
import TrackerQuery.Text.Split

/-!
# The catalog

What the server knows: its fields, the ends of its link types, the hierarchies
of areas and iterations, and who is asking.  Names are found without regard to
ASCII case.
-/

namespace TrackerQuery

inductive FieldType where
  | string
  | integer
  | double
  | dateTime
  | plainText
  | html
  | treePath
  | history
  | guid
  | boolean
  deriving DecidableEq, Repr, Inhabited

namespace FieldType

def names : List (String × FieldType) :=
  [("String", .string), ("Integer", .integer), ("Double", .double), ("DateTime", .dateTime),
   ("PlainText", .plainText), ("Html", .html), ("TreePath", .treePath), ("History", .history),
   ("Guid", .guid), ("Boolean", .boolean)]

def ofName? (name : String) : Option FieldType :=
  names.lookup name

def name : FieldType → String
  | .string => "String"
  | .integer => "Integer"
  | .double => "Double"
  | .dateTime => "DateTime"
  | .plainText => "PlainText"
  | .html => "Html"
  | .treePath => "TreePath"
  | .history => "History"
  | .guid => "Guid"
  | .boolean => "Boolean"

/-- The number that stands for the type in a query document. -/
def code : FieldType → Nat
  | .string => 16
  | .integer => 32
  | .dateTime => 48
  | .plainText => 64
  | .html => 80
  | .treePath => 96
  | .history => 112
  | .double => 128
  | .guid => 144
  | .boolean => 160

/-- Long texts can only be searched. -/
def isLongText : FieldType → Bool
  | .plainText | .html | .history => true
  | _ => false

end FieldType

/-- What a field describes. -/
inductive FieldUsage where
  | workItem
  | workItemLink
  deriving DecidableEq, Repr, Inhabited

namespace FieldUsage

def names : List (String × FieldUsage) :=
  [("WorkItem", .workItem), ("WorkItemLink", .workItemLink)]

def name : FieldUsage → String
  | .workItem => "WorkItem"
  | .workItemLink => "WorkItemLink"

end FieldUsage

/-! ## Fields with a meaning of their own -/

namespace CoreField

def id : Int := -3
def areaId : Int := -2
def areaPath : Int := -7
def teamProject : Int := -42
def iterationId : Int := -104
def iterationPath : Int := -105
def title : Int := 1
def state : Int := 2
def assignedTo : Int := 24
def workItemType : Int := 25
def history : Int := 54
def linkType : Int := 100

/-- The field has a value on every work item or link. -/
def alwaysHasValue (field : Int) : Bool :=
  field == workItemType || field == state || field == linkType

end CoreField

structure FieldDefinition where
  id : Int
  /-- The friendly name. -/
  name : String
  type : FieldType
  usage : FieldUsage := .workItem
  queryable : Bool := true
  sortable : Bool := true
  referenceName : String := ""
  deriving DecidableEq, Repr, Inhabited

namespace FieldDefinition

/-- Link types are compared by name, whatever type the field is stored with. -/
def dataType (field : FieldDefinition) : DataType :=
  if field.id = CoreField.linkType then .string
  else
    match field.type with
    | .string | .plainText | .html | .treePath | .history => .string
    | .integer | .double => .numeric
    | .dateTime => .date
    | .guid => .guid
    | .boolean => .bool

def isLinkField (field : FieldDefinition) : Bool :=
  field.usage == .workItemLink

end FieldDefinition

inductive Topology where
  | network
  | directedNetwork
  | dependency
  | tree
  deriving DecidableEq, Repr, Inhabited

namespace Topology

def names : List (String × Topology) :=
  [("Network", .network), ("DirectedNetwork", .directedNetwork), ("Dependency", .dependency),
   ("Tree", .tree)]

def name : Topology → String
  | .network => "Network"
  | .directedNetwork => "DirectedNetwork"
  | .dependency => "Dependency"
  | .tree => "Tree"

end Topology

/-- One end of a link type, such as the child end of parent and child. -/
structure LinkTypeEnd where
  id : Int
  name : String
  referenceName : String := ""
  isForward : Bool := false
  topology : Topology := .network
  deriving DecidableEq, Repr, Inhabited

def LinkTypeEnd.isNamed (linkEnd : LinkTypeEnd) (name : String) : Bool :=
  Text.sameIgnoringCase linkEnd.name name
    || (!linkEnd.referenceName.isEmpty && Text.sameIgnoringCase linkEnd.referenceName name)

/-- A node of a hierarchy with everything below it. -/
inductive TreeNode where
  | mk (id : Int) (name : String) (children : List TreeNode)
  deriving Repr, Inhabited

namespace TreeNode

def id : TreeNode → Int
  | .mk id _ _ => id

def name : TreeNode → String
  | .mk _ name _ => name

def children : TreeNode → List TreeNode
  | .mk _ _ children => children

/-- The first of the nodes with the name. -/
def named? (nodes : List TreeNode) (name : String) : Option TreeNode :=
  nodes.find? fun node => Text.sameIgnoringCase node.name name

/-- The node reached by the names, one level each. -/
def descend? : TreeNode → List String → Option TreeNode
  | node, [] => some node
  | node, name :: names =>
      match named? node.children name with
      | some child => child.descend? names
      | none => none

end TreeNode

inductive Hierarchy where
  | area
  | iteration
  deriving DecidableEq, Repr, Inhabited

structure Catalog where
  product : String := ""
  currentUser : String := ""
  /-- Fields by reference name, in the order of declaration. -/
  fields : List (String × FieldDefinition) := []
  linkTypes : List LinkTypeEnd := []
  areas : List TreeNode := []
  iterations : List TreeNode := []
  deriving Repr, Inhabited

namespace Catalog

/-- Adds a field, or leaves the catalog as it is if it has one of that
reference name. -/
def addField (catalog : Catalog) (field : FieldDefinition) : Catalog :=
  if (catalog.fields.lookup field.referenceName).isSome then catalog
  else { catalog with fields := catalog.fields ++ [(field.referenceName, field)] }

/-- The field filed under a reference name. -/
def entry? (catalog : Catalog) (referenceName : String) : Option FieldDefinition :=
  catalog.fields.lookup referenceName

def definitions (catalog : Catalog) : List FieldDefinition :=
  catalog.fields.map Prod.snd

/-- The field of exactly this reference name, else the first with this
reference name or friendly name in any case. -/
def field? (catalog : Catalog) (name : String) : Option FieldDefinition :=
  (catalog.entry? name).or <| catalog.definitions.find? fun field =>
    Text.sameIgnoringCase field.referenceName name || Text.sameIgnoringCase field.name name

def fieldById? (catalog : Catalog) (id : Int) : Option FieldDefinition :=
  catalog.definitions.find? (·.id == id)

def workItemFields (catalog : Catalog) : List FieldDefinition :=
  catalog.definitions.filter (·.usage == .workItem)

def linkTypeEnd? (catalog : Catalog) (name : String) : Option LinkTypeEnd :=
  catalog.linkTypes.find? (·.isNamed name)

def roots (catalog : Catalog) : Hierarchy → List TreeNode
  | .area => catalog.areas
  | .iteration => catalog.iterations

/-- The names on a path, from the root down. -/
def segments (path : String) : List String :=
  (Text.split (· == '\\') path).map Text.trim

/-- The node at the end of a path whose names are separated by backslashes. -/
def treeId? (catalog : Catalog) (hierarchy : Hierarchy) (path : String) : Option Int :=
  match segments path with
  | [] => none
  | root :: names => do
      let node ← TreeNode.named? (catalog.roots hierarchy) root
      return (← node.descend? names).id

/-- The fields that every server has. -/
def core : Catalog where
  fields :=
    let field (referenceName name : String) (id : Int) (type : FieldType) :
        String × FieldDefinition := (referenceName, { id, name, type, referenceName })
    [field "System.Id" "ID" CoreField.id .integer,
     field "System.Title" "Title" CoreField.title .string,
     field "System.State" "State" CoreField.state .string,
     field "System.AssignedTo" "Assigned To" CoreField.assignedTo .string,
     field "System.WorkItemType" "Work Item Type" CoreField.workItemType .string,
     field "System.TeamProject" "Team Project" CoreField.teamProject .string,
     field "System.AreaPath" "Area Path" CoreField.areaPath .treePath,
     field "System.AreaId" "Area ID" CoreField.areaId .integer,
     field "System.IterationPath" "Iteration Path" CoreField.iterationPath .treePath,
     field "System.IterationId" "Iteration ID" CoreField.iterationId .integer,
     ("System.History", { id := CoreField.history, name := "History", type := .history,
                          sortable := false, referenceName := "System.History" }),
     ("System.Links.LinkType", { id := CoreField.linkType, name := "Link Type", type := .integer,
                                 usage := .workItemLink, referenceName := "System.Links.LinkType" })]

end Catalog

end TrackerQuery

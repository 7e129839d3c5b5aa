import TrackerQuery.Catalog
import TrackerQuery.Error
import TrackerQuery.Json

/-!
# Reading catalogs

A catalog is stored as JSON: records with defaults for what may be left out,
and an object of fields by reference name in which a repeated name keeps its
place and takes the later value.
-/

namespace TrackerQuery

open Json

def FieldDefinition.ofJson? (referenceName : String) (json : Json) : Option FieldDefinition := do
  let members ← json.members ["id", "name", "type", "usage", "queryable", "sortable"]
  return { id := ← required members "id" int32?
           name := ← required members "name" string?
           type := ← required members "type" (variant? FieldType.names)
           usage := ← optional members "usage" (variant? FieldUsage.names) .workItem
           queryable := ← optional members "queryable" bool? true
           sortable := ← optional members "sortable" bool? true
           referenceName }

def LinkTypeEnd.ofJson? (json : Json) : Option LinkTypeEnd := do
  let members ← json.members ["id", "name", "reference_name", "is_forward", "topology"]
  return { id := ← required members "id" int32?
           name := ← required members "name" string?
           referenceName := ← optional members "reference_name" string? ""
           isForward := ← optional members "is_forward" bool? false
           topology := ← optional members "topology" (variant? Topology.names) .network }

/-- A node whose nested records and arrays go at most `depth` deep. -/
def TreeNode.ofJson? : (depth : Nat) → Json → Option TreeNode
  | 0, _ => none
  | 1, json => node json fun _ => none
  | depth + 2, json => node json fun value => do
      (← value.array?).mapM (TreeNode.ofJson? depth)
where
  node (json : Json) (children : Json → Option (List TreeNode)) : Option TreeNode := do
    let members ← json.members ["id", "name", "children"]
    return .mk (← required members "id" int32?) (← required members "name" string?)
      (← optional members "children" children [])

namespace Catalog

/-- Files a field under its name; an earlier one of that name gives way but
keeps its place. -/
def file (fields : List (String × FieldDefinition)) (name : String) (field : FieldDefinition) :
    List (String × FieldDefinition) :=
  if (fields.lookup name).isSome then
    fields.map fun entry => if entry.1 == name then (name, field) else entry
  else fields ++ [(name, field)]

def fieldsOfJson? (json : Json) : Option (List (String × FieldDefinition)) := do
  (← json.entries?).foldlM (fun fields (name, json) =>
    (FieldDefinition.ofJson? name json).map (file fields name)) []

/-- How deep records and arrays may nest. -/
def maxDepth : Nat := 127

def listOf? {α : Type} (decode : Json → Option α) (json : Json) : Option (List α) := do
  (← json.array?).mapM decode

def ofJson? (json : Json) : Option Catalog := do
  let members ← json.members
    ["product", "current_user", "fields", "link_types", "areas", "iterations"]
  let tree := listOf? (TreeNode.ofJson? (maxDepth - 2))
  return { product := ← optional members "product" string? ""
           currentUser := ← optional members "current_user" string? ""
           fields := ← optional members "fields" fieldsOfJson? []
           linkTypes := ← optional members "link_types" (listOf? LinkTypeEnd.ofJson?) []
           areas := ← optional members "areas" tree []
           iterations := ← optional members "iterations" tree [] }

def read (text : String) : Except Error Catalog :=
  match (Json.parse? text).bind ofJson? with
  | some catalog => .ok catalog
  | none => .error (.serialization "invalid catalog")

end Catalog

end TrackerQuery

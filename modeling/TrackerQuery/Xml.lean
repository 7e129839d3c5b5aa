/-!
# XML elements

Trees of elements and their text, two blanks of indentation a level.
-/

namespace TrackerQuery.Xml

structure Element where
  name : String
  attributes : List (String × String) := []
  children : List Element := []
  text : Option String := none
  deriving BEq, Repr, Inhabited

namespace Element

def ofText (name text : String) : Element :=
  { name, text := some text }

/-- Sets a value among attributes; a new value takes the place of the old one. -/
def assign (name value : String) : List (String × String) → List (String × String)
  | [] => [(name, value)]
  | entry :: rest =>
      if entry.1 == name then (name, value) :: rest else entry :: assign name value rest

def set (element : Element) (name value : String) : Element :=
  { element with attributes := assign name value element.attributes }

def attribute? (element : Element) (name : String) : Option String :=
  element.attributes.lookup name

def push (element child : Element) : Element :=
  { element with children := element.children ++ [child] }

/-- The first child with the name. -/
def child? (element : Element) (name : String) : Option Element :=
  element.children.find? (·.name == name)

end Element

/-! ## Text -/

def escapeChar : Char → String
  | '&' => "&amp;"
  | '<' => "&lt;"
  | '>' => "&gt;"
  | '\'' => "&apos;"
  | '"' => "&quot;"
  | c => c.toString

def escape (text : String) : String :=
  String.join (text.toList.map escapeChar)

/-- What stands before a tag: a new line at the depth of the tag, or nothing
where the tag goes on with the line. -/
def lead (inline : Bool) (depth : Nat) : String :=
  if inline then "" else "\n" ++ String.ofList (List.replicate (2 * depth) ' ')

def renderAttributes (attributes : List (String × String)) : String :=
  String.join (attributes.map fun entry => s!" {entry.1}=\"{escape entry.2}\"")

mutual

/-- The text of an element.  A tag goes on with the line right after a text. -/
def Element.renderAt (inline : Bool) (depth : Nat) : Element → String
  | ⟨name, attributes, children, text⟩ =>
      let opening := s!"{lead inline depth}<{name}{renderAttributes attributes}"
      match children, text with
      | [], none => s!"{opening}/>"
      | [], some text => s!"{opening}>{escape text}</{name}>"
      | first :: rest, text =>
          let before := escape (text.getD "")
          let body := first.renderAt text.isSome (depth + 1) ++ renderAll (depth + 1) rest
          s!"{opening}>{before}{body}{lead false depth}</{name}>"

def renderAll (depth : Nat) : List Element → String
  | [] => ""
  | element :: rest => element.renderAt false depth ++ renderAll depth rest

end

def Element.render (element : Element) : String :=
  element.renderAt true 0

end TrackerQuery.Xml

import TrackerQuery.Text.Split

/-!
# Folders

A folder of files without folders in it, and the paths that lead to its files.
A path is walked step by step; what lies outside of the folder cannot be
reached.
-/

namespace TrackerQuery

/-- A folder without folders in it. -/
structure Folder where
  files : List (String × String) := []
  deriving DecidableEq, Repr, Inhabited

/-- Why a path does not lead to a file. -/
inductive PathFault where
  | missing
  | forbidden
  | notFolder
  | isFolder
  | tooLong
  | zeroCharacter
  deriving DecidableEq, Repr, Inhabited

def PathFault.message : PathFault → String
  | .missing => "No such file or directory (os error 2)"
  | .forbidden => "Permission denied (os error 13)"
  | .notFolder => "Not a directory (os error 20)"
  | .isFolder => "Is a directory (os error 21)"
  | .tooLong => "File name too long (os error 36)"
  | .zeroCharacter => "file name contained an unexpected NUL byte"

/-- A path without the steps that say nothing. -/
structure Path where
  /-- It starts at the top and not in the folder. -/
  fromTop : Bool
  steps : List String
  /-- The last step ends with a slash, so that only a folder will do. -/
  closed : Bool
  deriving DecidableEq, Repr, Inhabited

namespace Path

def ofText (text : String) : Path :=
  { fromTop := text.toList.head? == some '/'
    steps := (Text.split (· == '/') text).filter (!·.isEmpty)
    closed := text.toList.getLast? == some '/' }

/-- The longest path and the longest step in bytes. -/
def maxLength : Nat := 4095

def maxStep : Nat := 255

/-- Texts that no system takes for a path. -/
def refusal? (text : String) : Option PathFault :=
  if text.toList.contains '\x00' then some .zeroCharacter
  else if maxLength < text.utf8ByteSize then some .tooLong
  else if text.isEmpty then some .missing
  else none

def isDots (step : String) : Bool :=
  step == "." || step == ".."

end Path

namespace Folder

def read? (folder : Folder) (name : String) : Option String :=
  folder.files.lookup name

def has (folder : Folder) (name : String) : Bool :=
  (folder.read? name).isSome

/-- Replaces or adds a file. -/
def write (folder : Folder) (name content : String) : Folder :=
  if folder.has name then
    { files := folder.files.map fun file => if file.1 == name then (name, content) else file }
  else { files := folder.files ++ [(name, content)] }

/-- Walks along steps that have to be folders.  The result says whether the
walk ends in the folder; `inside` whether it begins there. -/
def walk (folder : Folder) : (inside : Bool) → List String → Except PathFault Bool
  | inside, [] => .ok inside
  | inside, step :: rest =>
      if step == "." then folder.walk inside rest
      else if step == ".." then folder.walk false rest
      else if Path.maxStep < step.utf8ByteSize then .error .tooLong
      else if inside && folder.has step then .error .notFolder
      else .error .missing

/-- The last step of a path, if the path leads to a file of the folder when
there is one of that name.  A slash at the end is the fault `closed`. -/
def lastStep (folder : Folder) (text : String) (closed : PathFault) : Except PathFault String := do
  if let some fault := Path.refusal? text then throw fault
  let path := Path.ofText text
  let inside ← folder.walk (!path.fromTop) path.steps.dropLast
  let some last := path.steps.getLast? | throw .isFolder
  if Path.isDots last then throw .isFolder
  if path.closed then throw closed
  if Path.maxStep < last.utf8ByteSize then throw .tooLong
  if !inside then throw .forbidden
  return last

/-- The name of the file that a path leads to and that can be written, be it
there or not. -/
def writable (folder : Folder) (text : String) : Except PathFault String :=
  folder.lastStep text .isFolder

/-- The content of the file that a path leads to. -/
def contents (folder : Folder) (text : String) : Except PathFault String := do
  match folder.read? (← folder.lastStep text .notFolder) with
  | some content => return content
  | none => throw .missing

end Folder

end TrackerQuery

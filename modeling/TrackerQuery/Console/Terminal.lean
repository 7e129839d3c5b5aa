import TrackerQuery.Console.Folder

/-!
# Terminals

What a console talks to: a screen, a second stream for complaints, and files
that take a copy of the output.  `Screen` is a terminal that only remembers.
-/

namespace TrackerQuery

structure Terminal (m : Type → Type) where
  display : String → m Unit
  complain : String → m Unit
  /-- Opens a file for writing, emptied first if asked to be, and gives the
  reason if that fails. -/
  openFile : (name : String) → (overwrite : Bool) → m (Option String)
  append : (name text : String) → m Unit

/-- What a terminal has shown, and the files beside it. -/
structure Screen where
  shown : String := ""
  complaints : String := ""
  folder : Folder := {}
  deriving Inhabited

namespace Screen

def openFile (screen : Screen) (path : String) (overwrite : Bool) : Option String × Screen :=
  match screen.folder.writable path with
  | .error fault => (some fault.message, screen)
  | .ok name =>
      let content := if overwrite then "" else (screen.folder.read? name).getD ""
      (none, { screen with folder := screen.folder.write name content })

def append (screen : Screen) (path text : String) : Screen :=
  match screen.folder.writable path with
  | .error _ => screen
  | .ok name =>
      let content := (screen.folder.read? name).getD ""
      { screen with folder := screen.folder.write name (content ++ text) }

/-- A terminal that remembers everything in a `Screen`. -/
def terminal : Terminal (StateM Screen) where
  display text := modify fun screen => { screen with shown := screen.shown ++ text }
  complain text := modify fun screen => { screen with complaints := screen.complaints ++ text }
  openFile name overwrite := modifyGet (openFile · name overwrite)
  append name text := modify (append · name text)

end Screen

end TrackerQuery

import TrackerQuery.Calendar.Timestamp
import TrackerQuery.Console.Stage
import TrackerQuery.Console.Terminal
import TrackerQuery.Session

/-!
# The console

The commands that set how queries are treated.  A command starts with a colon;
its name is found in any case.
-/

namespace TrackerQuery

/-- The value that a text stands for: a whole number, a number, a timestamp, or
else itself without the quotes around it. -/
def ContextValue.ofText (text : String) : ContextValue :=
  match Decimal.int32? text with
  | some n => .number n
  | none =>
      match Decimal.float? text with
      | some x => .double x
      | none =>
          match Calendar.timestamp? text with
          | some t => .dateTime t
          | none =>
              match text.toList with
              | '\'' :: rest =>
                  if rest.getLast? == some '\'' then .string (String.ofList rest.dropLast)
                  else .string text
              | _ => .string text

structure Console where
  stage : Stage := .compile
  context : Context := []
  /-- The file that takes a copy of the output. -/
  log : Option String := none
  deriving Inhabited

/-- What a command leads to. -/
inductive Reply where
  | proceed
  | exit
  | message (text : String)
  | failure (text : String)
  deriving DecidableEq, Repr, Inhabited

namespace Console

/-- The commands and what they need. -/
inductive Command where
  | help
  | quit
  | stage (name : String)
  | set (arguments : String)
  | unset (name : String)
  | context
  | log (arguments : List String)
  | stopLog
  | clear
  | unknown (name : String)
  deriving DecidableEq, Repr, Inhabited

def isCommand (line : String) : Bool :=
  (Text.trim line).toList.head? == some ':'

def Command.ofName (name arguments : String) : Command :=
  match name with
  | "help" | "h" => .help
  | "quit" | "q" | "exit" | "e" => .quit
  | "stage" => .stage arguments
  | "set" => .set arguments
  | "unset" => .unset arguments
  | "context" => .context
  | "tee" => .log (Text.words arguments)
  | "notee" => .stopLog
  | "clear" => .clear
  | other => .unknown other

/-- The name of a command ends at the first blank. -/
def Command.ofLine (line : String) : Command :=
  let cs := Text.trimChars line.toList
  let cs := if cs.head? == some ':' then cs.drop 1 else cs
  let (name, arguments) := (Text.cut? (· == ' ') cs).getD (cs, [])
  .ofName (Text.lowercase (String.ofList name)) (Text.trim (String.ofList arguments))

def help : String := "
╔═══════════════════════════════════════════════════════════════╗
║                    Console Commands                           ║
╠═══════════════════════════════════════════════════════════════╣
║ :help, :h                  Show this help                     ║
║ :quit, :q, :exit, :e       Exit the program                   ║
║ :stage [name]              tokens | parse | bind | optimize   ║
║                            | compile (default)                ║
║ :set <name> <value>        Set the value of @name             ║
║ :unset <name>              Remove @name                       ║
║ :context                   List macro values                  ║
║ :tee [-o] <filename>       Log output to file (-o: overwrite) ║
║ :notee                     Stop logging to file               ║
║ :clear                     Clear the screen                   ║
╚═══════════════════════════════════════════════════════════════╝
"

/-- Empties a screen and goes to its top left. -/
def clearScreen : String := "\x1b[2J\x1b[1;1H"

/-- A name without the signs that macros start with. -/
def withoutSigns (name : List Char) : String :=
  String.ofList (name.dropWhile (· == '@'))

def renderEntry (entry : String × ContextValue) : String :=
  s!"@{entry.1} = {entry.2.render} ({entry.2.typeName})"

def setStage (console : Console) (name : String) : Console × Reply :=
  if name.isEmpty then (console, .message s!"Current stage: {console.stage.render}")
  else
    match Stage.ofText name with
    | .ok stage => ({ console with stage }, .message s!"Stage set to {stage.render}")
    | .error text => (console, .failure text)

def setValue (console : Console) (arguments : String) : Console × Reply :=
  match Text.cut? Text.isBlank arguments.toList with
  | some (name, text) =>
      let name := withoutSigns name
      let value := ContextValue.ofText (Text.trim (String.ofList text))
      ({ console with context := console.context.insert name value },
        .message (renderEntry (name, value)))
  | none => (console, .failure "Usage: :set <name> <value>")

def unsetValue (console : Console) (arguments : String) : Console × Reply :=
  let name := withoutSigns arguments.toList
  if console.context.has name then
    ({ console with context := console.context.erase name }, .message s!"Removed @{name}")
  else (console, .failure s!"No such macro: @{name}")

def listValues (console : Console) : Reply :=
  if console.context.isEmpty then .message "Context is empty"
  else .message ("\n".intercalate (console.context.map renderEntry))

def stopLog (console : Console) : Console × Reply :=
  ({ console with log := none },
    .message (if console.log.isSome then "Stopped logging" else "No active logging"))

variable {m : Type → Type} [Monad m]

def startLog (terminal : Terminal m) (console : Console) (arguments : List String) :
    m (Console × Reply) := do
  let overwrite := arguments.head? == some "-o"
  match (if overwrite then arguments.drop 1 else arguments).head? with
  | none => return (console, .failure "Usage: :tee [-o] <filename>")
  | some name =>
      match ← terminal.openFile name overwrite with
      | none => return ({ console with log := some name }, .message s!"Logging to {name}")
      | some reason => return (console, .failure s!"Cannot open file: {reason}")

/-- Carries out the command on a line. -/
def execute (terminal : Terminal m) (console : Console) (line : String) :
    m (Console × Reply) := do
  match Command.ofLine line with
  | .help => return (console, .message help)
  | .quit => return (console, .exit)
  | .stage name => return console.setStage name
  | .set arguments => return console.setValue arguments
  | .unset name => return console.unsetValue name
  | .context => return (console, console.listValues)
  | .log arguments => startLog terminal console arguments
  | .stopLog => return console.stopLog
  | .clear =>
      terminal.display clearScreen
      return (console, .proceed)
  | .unknown name =>
      return (console, .failure s!"Unknown command: {name}. Type :help for help.")

/-- Shows a text and copies it to the log. -/
def write (terminal : Terminal m) (console : Console) (text : String) : m Unit := do
  terminal.display text
  match console.log with
  | some name => terminal.append name text
  | none => return

end Console

end TrackerQuery

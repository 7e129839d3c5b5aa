import TrackerQuery.Catalog.Read
import TrackerQuery.CommandLine.Options
import TrackerQuery.Compile
import TrackerQuery.Console
import TrackerQuery.Report
import TrackerQuery.Select.Print
import TrackerQuery.Text.Typed

/-!
# The command line

One query from the arguments, or queries and console commands line by line.
-/

namespace TrackerQuery

/-- What lines are run with. -/
structure Shell where
  catalog : Catalog := .core
  settings : Settings := {}
  console : Console := {}
  /-- Errors are shown in color. -/
  colored : Bool := false
  now : Calendar.Instant := ⟨⟨0, 0⟩⟩
  deriving Inhabited

namespace Shell

def compiler (shell : Shell) : Compiler :=
  { catalog := shell.catalog, settings := shell.settings
    context := shell.console.context, now := shell.now }

/-- The tokens of a query; those before a lexical error are shown too. -/
def tokensOutput (shell : Shell) (query : String) : String × Bool :=
  let result := scan query
  match result.error with
  | some error =>
      (Report.tokens result.tokens ++ Report.error shell.colored query error, false)
  | none => (Report.tokens result.tokens, true)

def compiledOutput (compiled : Compiled) : String :=
  s!"{compiled.document.render}\n{Report.fields compiled.displayFields compiled.sortFields}"

/-- What a query has to show at a stage after the tokens. -/
def stageOutput (shell : Shell) (query : String) : Except Error String := do
  match shell.console.stage with
  | .tokens | .parse =>
      let parsed ← Select.parse query
      return s!"{parsed.render}\n"
  | .bind =>
      let bound ← shell.compiler.bind query
      return s!"mode: {bound.mode.render}\n{bound.render}\n"
  | .optimize =>
      let optimized ← shell.compiler.optimize query
      return s!"{optimized.render}\n"
  | .compile => return compiledOutput (← shell.compiler.compile query)

/-- The output of a query and whether it succeeded; `none` where an overflow
ends the program. -/
def run (shell : Shell) (query : String) : Option (String × Bool) :=
  if shell.console.stage = .tokens then some (shell.tokensOutput query)
  else
    match shell.stageOutput query with
    | .ok output => some (output, true)
    | .error .overflow => none
    | .error error => some (Report.error shell.colored query error, false)

/-- The exit code of a program that an overflow has ended. -/
def overflowCode : Nat := 101

def complainOfOverflow {m : Type → Type} (terminal : Terminal m) : m Unit :=
  terminal.complain s!"{Error.overflow.message}\n"

def quitWords : List String := ["quit", "exit", "q"]

def helpWords : List String := ["help", "h", "?"]

variable {m : Type → Type} [Monad m]

/-- Carries out a command; an exit code ends the shell. -/
def command (terminal : Terminal m) (shell : Shell) (line : String) : m (Except Nat Shell) := do
  let (console, reply) ← shell.console.execute terminal line
  match reply with
  | .exit => return .error 0
  | .proceed => return .ok { shell with console }
  | .message text =>
      console.write terminal (text ++ "\n")
      return .ok { shell with console }
  | .failure text =>
      terminal.complain s!"错误: {text}\n"
      return .ok { shell with console }

/-- Treats one line as it was typed: a command, a word that ends the shell or
asks for help, or a query. -/
def line (terminal : Terminal m) (shell : Shell) (text : String) : m (Except Nat Shell) := do
  let text := Text.trim (Text.typed text)
  if text.isEmpty then return .ok shell
  else if Console.isCommand text then shell.command terminal text
  else if quitWords.contains (Text.lowercase text) then return .error 0
  else if helpWords.contains (Text.lowercase text) then
    terminal.display (Report.help ++ "\n")
    return .ok shell
  else
    match shell.run text with
    | some (output, _) =>
        shell.console.write terminal output
        return .ok shell
    | none =>
        complainOfOverflow terminal
        return .error overflowCode

/-- Treats lines until one ends the shell; the result is the exit code. -/
def lines (terminal : Terminal m) (shell : Shell) : List String → m Nat
  | [] => return 0
  | text :: rest => do
      match ← shell.line terminal text with
      | .ok shell => shell.lines terminal rest
      | .error code => return code

def greeting (shell : Shell) : String :=
  "wiql-cli 0.1.0 - WIQL 查询编译检查工具\n"
    ++ "=============================================\n"
    ++ s!"字段数: {shell.catalog.fields.length}\n"
    ++ s!"链接类型数: {shell.catalog.linkTypes.length}\n"
    ++ "\n输入 'help' 查看帮助，':help' 查看控制台命令，':quit' 退出\n\n"

def farewell : String := "再见！\n"

def prompt (shell : Shell) : String :=
  s!"wiql:{shell.console.stage.render}> "

end Shell

namespace CommandLine

def versionText : String := "wiql-cli 0.1.0\n"

def helpText : String := "WIQL 查询编译检查工具

Usage: wiql-cli [OPTIONS]

Options:
  -c, --catalog <CATALOG>      模式目录文件 (JSON)，缺省时只包含系统核心字段
      --config <CONFIG>        编译器配置文件 (JSON)
  -e, --execute <EXECUTE>      执行单个查询后退出
  -s, --stage <STAGE>          执行阶段: tokens, parse, bind, optimize, compile [default: compile]
      --log-level <LOG_LEVEL>  日志级别 [default: warn]
      --plain                  不使用颜色输出
  -h, --help                   Print help
  -V, --version                Print version
"

def misuseText : String := "error: unexpected arguments, see --help\n"

variable {m : Type → Type} [Monad m]

/-- The content of a file that an option names. -/
def optionFile (readFile : String → m (Except Error String)) (name : Option String) :
    m (Except Error (Option String)) := do
  match name with
  | none => return .ok none
  | some name => return (← readFile name).map some

/-- The shell that the options ask for, or what is wrong with them. -/
def start (options : Options) (catalog settings : Option String) (colored : Bool)
    (now : Calendar.Instant) : Except String Shell := do
  let message {α : Type} (result : Except Error α) := result.mapError Error.message
  let catalog ← match catalog with
    | some text => message (Catalog.read text)
    | none => pure .core
  let settings ← match settings with
    | some text => message (Settings.read Calendar.Zone.ofName? text)
    | none => pure {}
  let stage ← Stage.ofText (options.stage.getD "compile")
  return { catalog, settings, console := { stage }, colored := colored && !options.plain, now }

/-- The program in a terminal; the result is its exit code. -/
def run (terminal : Terminal m) (readFile : String → m (Except Error String))
    (session : Shell → m Nat) (colored : Bool) (now : Calendar.Instant)
    (arguments : List String) : m Nat := do
  match Request.ofArguments arguments with
  | .version => terminal.display versionText; return 0
  | .help => terminal.display helpText; return 0
  | .misuse => terminal.complain misuseText; return 2
  | .run options =>
      let catalog ← optionFile readFile options.catalog
      let settings ← optionFile readFile options.config
      let shell : Except String Shell := do
        start options (← catalog.mapError Error.message) (← settings.mapError Error.message)
          colored now
      match shell with
      | .error text =>
          terminal.complain s!"Error: {text}\n"
          return 1
      | .ok shell =>
          match options.execute with
          | some query =>
              match shell.run query with
              | some (output, ok) =>
                  terminal.display output
                  return if ok then 0 else 1
              | none =>
                  Shell.complainOfOverflow terminal
                  return Shell.overflowCode
          | none =>
              terminal.display shell.greeting
              let code ← session shell
              if code = 0 then terminal.display Shell.farewell
              return code

/-- The program with its input and files given in advance. -/
def runWith (folder : Folder) (input : String) (now : Calendar.Instant)
    (arguments : List String) : Nat × Screen :=
  let readFile (name : String) : StateM Screen (Except Error String) := do
    return (← get).folder.contents name |>.mapError fun fault => .file fault.message
  let session (shell : Shell) : StateM Screen Nat :=
    shell.lines Screen.terminal (Text.split (· == '\n') input)
  (run Screen.terminal readFile session false now arguments).run { folder }

end CommandLine

end TrackerQuery

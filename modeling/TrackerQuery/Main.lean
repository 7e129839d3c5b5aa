import Std.Time.DateTime.Timestamp
import TrackerQuery.CommandLine

/-!
# The program

The command line on the real terminal, files and clock.
-/

namespace TrackerQuery.Program

def terminal : Terminal IO where
  display text := do
    let out ← IO.getStdout
    out.putStr text
    out.flush
  complain text := IO.eprint text
  openFile name overwrite := do
    try
      IO.FS.withFile name (if overwrite then .write else .append) fun _ => return none
    catch error => return some (toString error)
  append name text := do
    try
      IO.FS.withFile name .append fun file => file.putStr text
    catch _ => return

def readFile (name : String) : IO (Except Error String) := do
  try
    return .ok (← IO.FS.readFile name)
  catch error => return .error (.file (toString error))

/-- Reads and treats lines until the input ends or a line ends the shell. -/
partial def session (shell : Shell) : IO Nat := do
  let input ← IO.getStdin
  if ← input.isTty then terminal.display shell.prompt
  let line ← input.getLine
  if line.isEmpty then return 0
  match ← shell.line terminal line with
  | .ok shell => session shell
  | .error code => return code

def now : IO Calendar.Instant := do
  let time ← Std.Time.Timestamp.now
  return ⟨⟨time.toSecondsSinceUnixEpoch.val, 0⟩⟩

/-- The whole program; the result is its exit code. -/
def start (arguments : List String) : IO UInt32 := do
  let colored ← (← IO.getStdout).isTty
  let code ← CommandLine.run terminal readFile session colored (← now) arguments
  return code.toUInt32

end TrackerQuery.Program

def main (arguments : List String) : IO UInt32 :=
  TrackerQuery.Program.start arguments

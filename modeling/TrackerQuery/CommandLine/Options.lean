import TrackerQuery.Text.Split

/-!
# Options

The options of the command line.  An option that takes a value has it in the
next argument, after `=`, or, for a one-letter option, right behind the letter.
-/

namespace TrackerQuery.CommandLine

structure Options where
  /-- The file with the catalog. -/
  catalog : Option String := none
  /-- The file with the settings. -/
  config : Option String := none
  /-- The one query to run. -/
  execute : Option String := none
  stage : Option String := none
  /-- The level of the log, of which nothing is written. -/
  logLevel : Option String := none
  /-- No colors. -/
  plain : Bool := false
  deriving DecidableEq, Repr, Inhabited

/-- What the arguments ask for. -/
inductive Request where
  | run (options : Options)
  | version
  | help
  /-- The arguments are not understood. -/
  | misuse
  deriving DecidableEq, Repr, Inhabited

/-- The options that take a value. -/
inductive Setting where
  | catalog
  | config
  | execute
  | stage
  | logLevel
  deriving DecidableEq, Repr, Inhabited

namespace Setting

def get (options : Options) : Setting → Option String
  | .catalog => options.catalog
  | .config => options.config
  | .execute => options.execute
  | .stage => options.stage
  | .logLevel => options.logLevel

/-- Gives an option its value; no option is given twice. -/
def set? (options : Options) (value : String) (setting : Setting) : Option Options :=
  if (setting.get options).isSome then none
  else
    match setting with
    | .catalog => some { options with catalog := some value }
    | .config => some { options with config := some value }
    | .execute => some { options with execute := some value }
    | .stage => some { options with stage := some value }
    | .logLevel => some { options with logLevel := some value }

end Setting

/-- An option by itself. -/
inductive Switch where
  | takes (setting : Setting)
  | plain
  | help
  | version
  deriving DecidableEq, Repr, Inhabited

def Switch.ofWord? : String → Option Switch
  | "catalog" => some (.takes .catalog)
  | "config" => some (.takes .config)
  | "execute" => some (.takes .execute)
  | "stage" => some (.takes .stage)
  | "log-level" => some (.takes .logLevel)
  | "plain" => some .plain
  | "help" => some .help
  | "version" => some .version
  | _ => none

def Switch.ofLetter? : Char → Option Switch
  | 'c' => some (.takes .catalog)
  | 'e' => some (.takes .execute)
  | 's' => some (.takes .stage)
  | 'h' => some .help
  | 'V' => some .version
  | _ => none

/-- An argument taken apart. -/
inductive Argument where
  /-- `--`, after which no options follow. -/
  | separator
  /-- An option with the value attached to it. -/
  | switch (switch : Switch) (attached : Option String)
  | unknown
  /-- Text that is no option. -/
  | plain (text : String)
  deriving DecidableEq, Repr, Inhabited

def Argument.ofWord (word : List Char) : Argument :=
  let (name, value) := match Text.cut? (· == '=') word with
    | some (name, value) => (name, some (String.ofList value))
    | none => (word, none)
  match Switch.ofWord? (String.ofList name), value with
  | some (.takes setting), value => .switch (.takes setting) value
  | some flag, none => .switch flag none
  | _, _ => .unknown

/-- A letter without a value is an option by itself, whatever follows it. -/
def Argument.ofLetters (letter : Char) (rest : List Char) : Argument :=
  match Switch.ofLetter? letter with
  | some (.takes setting) =>
      .switch (.takes setting) <| match rest with
        | [] => none
        | '=' :: value => some (String.ofList value)
        | value => some (String.ofList value)
  | some flag => .switch flag none
  | none => .unknown

def Argument.ofText (text : String) : Argument :=
  match text.toList with
  | ['-', '-'] => .separator
  | '-' :: '-' :: word => .ofWord word
  | '-' :: letter :: rest => .ofLetters letter rest
  | _ => .plain text

/-- Reads arguments one after the other. -/
def Options.read (options : Options) : List String → Request
  | [] => .run options
  | [argument] =>
      match Argument.ofText argument with
      | .separator => .run options
      | .switch .plain _ => if options.plain then .misuse else .run { options with plain := true }
      | .switch .help _ => .help
      | .switch .version _ => .version
      | .switch (.takes setting) (some value) =>
          match setting.set? options value with
          | some options => .run options
          | none => .misuse
      | _ => .misuse
  | argument :: next :: rest =>
      match Argument.ofText argument with
      | .switch .plain _ =>
          if options.plain then .misuse
          else Options.read { options with plain := true } (next :: rest)
      | .switch .help _ => .help
      | .switch .version _ => .version
      | .switch (.takes setting) (some value) =>
          match setting.set? options value with
          | some options => Options.read options (next :: rest)
          | none => .misuse
      | .switch (.takes setting) none =>
          match Argument.ofText next with
          | .plain value =>
              match setting.set? options value with
              | some options => Options.read options rest
              | none => .misuse
          | _ => .misuse
      | _ => .misuse

/-- What the arguments ask for. -/
def Request.ofArguments (arguments : List String) : Request :=
  Options.read {} arguments

end TrackerQuery.CommandLine

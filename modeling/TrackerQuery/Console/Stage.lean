import TrackerQuery.Text.Case

/-!
# Stages

How far a query is taken before its result is shown.
-/

namespace TrackerQuery

inductive Stage where
  | tokens
  | parse
  | bind
  | optimize
  | compile
  deriving DecidableEq, Repr

namespace Stage

instance : Inhabited Stage := ⟨.compile⟩

def render : Stage → String
  | .tokens => "tokens"
  | .parse => "parse"
  | .bind => "bind"
  | .optimize => "optimize"
  | .compile => "compile"

/-- The stage of a name; a name that is none is reported in lower case. -/
def ofText (text : String) : Except String Stage :=
  match Text.asciiLowercase text with
  | "tokens" | "lex" => .ok .tokens
  | "parse" => .ok .parse
  | "bind" => .ok .bind
  | "optimize" | "opt" => .ok .optimize
  | "compile" | "xml" => .ok .compile
  | other => .error s!"Unknown stage: {other}"

end Stage

end TrackerQuery

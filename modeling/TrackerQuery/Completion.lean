import TrackerQuery.Text.Blank
import TrackerQuery.Text.Bytes
import TrackerQuery.Text.Case
import TrackerQuery.Text.Split

/-!
# Completion

What the word before the cursor can be completed to: a console command, the
reference name of a field after an open bracket, a keyword, or one of the words
that go with the keyword before.
-/

namespace TrackerQuery.Completion

/-- A completion as it is listed and as it replaces what was typed. -/
structure Candidate where
  display : String
  replacement : String
  deriving DecidableEq, Repr, Inhabited

/-- Completions of the text from byte `start` to the cursor. -/
structure Suggestion where
  start : Nat
  candidates : List Candidate := []
  deriving DecidableEq, Repr, Inhabited

def keywords : List String :=
  ["SELECT", "FROM", "WHERE", "ORDER", "GROUP", "BY", "ASOF", "MODE", "ASC", "DESC",
   "AND", "OR", "NOT", "EVER", "NEVER",
   "IN", "UNDER", "CONTAINS", "WORDS",
   "TRUE", "FALSE",
   "@ME", "@TODAY"]

/-- The words that may follow a keyword. -/
def followers : String → List String
  | "FROM" => ["WorkItems", "WorkItemLinks"]
  | "ORDER" | "GROUP" => ["BY"]
  | "CONTAINS" => ["WORDS"]
  | "IN" => ["GROUP"]
  | "MODE" => ["(MustContain)", "(MayContain)", "(DoesNotContain)", "(Recursive)"]
  | _ => []

def commands : List String :=
  [":help", ":h", ":quit", ":q", ":exit", ":e", ":stage", ":set", ":unset", ":context", ":tee",
   ":notee", ":clear"]

/-- The text before and after the last `[`, unless that is closed again. -/
def openBracket? (typed : List Char) : Option (List Char × List Char) :=
  (Text.cutLast? ['['] typed).filter fun (_, name) => !name.contains ']'

/-- Words as they are. -/
def verbatim (words : List String) : List Candidate :=
  words.map fun word => ⟨word, word⟩

/-- The fields whose reference name starts with what was typed, in any case. -/
def fieldCandidates (fields : List String) (typed : String) : List Candidate :=
  let start := Text.lowercase typed
  (fields.filter fun field => Text.startsWith (Text.lowercase field) start).map
    fun field => ⟨field, s!"[{field}]"⟩

/-- What may follow the keyword before, else the keywords. -/
def wordCandidates (previous : Option String) (word : String) : List Candidate :=
  let start := Text.uppercase word
  let next := ((previous.map fun word => followers (Text.uppercase word)).getD []).filter
    fun follower => Text.startsWith (Text.uppercase follower) start
  if next.isEmpty then verbatim (keywords.filter fun keyword => Text.startsWith keyword start)
  else verbatim next

/-- Completes the text before the cursor, which stands at a byte offset of the
line. -/
def complete (fields : List String) (line : String) (cursor : Nat) : Suggestion :=
  let typed := Text.before cursor line.toList
  if typed.head? == some ':' then
    ⟨0, verbatim (commands.filter fun command => Text.startsWith command (String.ofList typed))⟩
  else
    match openBracket? typed with
    | some (text, name) => ⟨Text.byteLength text, fieldCandidates fields (String.ofList name)⟩
    | none =>
        match (Text.words (String.ofList typed)).reverse with
        | [] => ⟨0, []⟩
        | word :: earlier =>
            if typed.getLast? == some ' ' then
              ⟨cursor, verbatim (followers (Text.uppercase word))⟩
            else ⟨cursor - word.utf8ByteSize, wordCandidates earlier.head? word⟩

end TrackerQuery.Completion

import TrackerQuery.Span
import TrackerQuery.Text.Case

/-!
# Tokens

The lexical units of a query text.  A token keeps the value that matters to
the grammar, without brackets, the variable sign or quotes, and its place.
-/

namespace TrackerQuery

inductive TokenKind where
  /-- A bare name; keywords are names too. -/
  | name
  | bracketedName
  | variable
  /-- A decimal literal with its sign. -/
  | number
  | string
  | boolean
  /-- An operator or a punctuation character. -/
  | operation
  deriving DecidableEq, Repr, Inhabited

structure Token where
  kind : TokenKind
  value : String
  span : Span
  deriving DecidableEq, Repr, Inhabited

namespace Token

/-- A name in either spelling. -/
def isName (token : Token) : Bool :=
  token.kind == .name || token.kind == .bracketedName

/-- The bare name `keyword`, in any ASCII case. -/
def isKeyword (token : Token) (keyword : String) : Bool :=
  token.kind == .name && Text.sameIgnoringCase token.value keyword

def isOperation (token : Token) (text : String) : Bool :=
  token.kind == .operation && token.value == text

/-- Writes every quote of the text twice. -/
def doubleQuotes (quote : Char) : List Char → List Char
  | [] => []
  | c :: cs => if c = quote then c :: c :: doubleQuotes quote cs else c :: doubleQuotes quote cs

/-- A text as a string literal. -/
def quoted (value : String) : String :=
  String.ofList ('\'' :: doubleQuotes '\'' value.toList ++ ['\''])

/-- The token as query text. -/
def render (token : Token) : String :=
  match token.kind with
  | .bracketedName => s!"[{token.value}]"
  | .variable => s!"@{token.value}"
  | .string => quoted token.value
  | _ => token.value

end Token

end TrackerQuery

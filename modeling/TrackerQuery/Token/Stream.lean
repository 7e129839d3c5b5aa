import TrackerQuery.Error
import TrackerQuery.Token

/-!
# Reading a token list

The grammar reads a list of tokens from the left.  A parser gives what it read
and the tokens that are left, or the error at the token it could not use.
-/

namespace TrackerQuery

abbrev Parser (α : Type) := List Token → Except Error (α × List Token)

namespace Parser

/-- Fails at the first of the tokens that are left, or at the end of the
query. -/
def fail {α : Type} (cause : Fault) (rest : List Token) : Except Error α :=
  .error (.fault cause (rest.head?.map Token.span))

/-- Reads a token that satisfies `p`. -/
def token? (p : Token → Bool) : List Token → Option (Token × List Token)
  | [] => none
  | token :: rest => if p token then some (token, rest) else none

def keyword? (word : String) : List Token → Option (Token × List Token) :=
  token? (·.isKeyword word)

def operation? (text : String) : List Token → Option (Token × List Token) :=
  token? (·.isOperation text)

/-- What `read` finds, or the fault where it finds nothing. -/
def expect {α : Type} (cause : Fault) (read : List Token → Option (α × List Token)) : Parser α :=
  fun tokens =>
    match read tokens with
    | some found => .ok found
    | none => fail cause tokens

/-- One or more items with a separator between each two. -/
def sepBy {α : Type} (item : Parser α) (separator : Token → Bool) : Parser (List α) :=
  fun tokens => do
    let (first, rest) ← item tokens
    match token? separator rest with
    | none => return ([first], rest)
    | some (_, rest) =>
        if rest.length < tokens.length then
          let (others, rest) ← sepBy item separator rest
          return (first :: others, rest)
        else
          fail .expectingEndOfString rest
termination_by tokens => tokens.length

/-- Items with commas between them, in parentheses; `make` takes the place of all. -/
def bracketed {α β : Type} (item : Parser α) (make : Span → List α → β) : Parser β :=
  fun tokens => do
    let (opening, rest) ← expect .expectingLeftBracket (operation? "(") tokens
    let (items, rest) ← sepBy item (·.isOperation ",") rest
    let (closing, rest) ← expect .expectingRightBracket (operation? ")") rest
    return (make (opening.span.cover closing.span) items, rest)

end Parser

end TrackerQuery

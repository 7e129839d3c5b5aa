import TrackerQuery.Decimal.Integer
import TrackerQuery.Error
import TrackerQuery.Token
import TrackerQuery.Text.Blank
import TrackerQuery.Text.Bytes
import TrackerQuery.Text.Numeral

/-!
# Scanning

Cuts a query text into tokens.  Blanks separate tokens; every other character
belongs to exactly one token.  Each reader says how many characters a lexeme
has after its first one, so the rest of the text is always shorter and the
token's value is a function of the lexeme alone.
-/

namespace TrackerQuery

/-- The tokens up to the first lexical error.  An unterminated string still
counts as a token, with the text read so far. -/
structure Scan where
  tokens : List Token
  error : Option Error
  deriving Inhabited

namespace Scan

open Decimal (isDigit)

def startsWithDigit (cs : List Char) : Bool :=
  cs.head?.any isDigit

/-- A character of a name after the first. -/
def isNameChar (c : Char) : Bool :=
  Text.isAlphanumeric c || c == '_'

def isNameStart (c : Char) : Bool :=
  Text.isLetter c || c == '_'

/-- The length of the longest run of characters that satisfy `p`. -/
def runLength (p : Char → Bool) (cs : List Char) : Nat :=
  (cs.takeWhile p).length

/-- A name goes on with name characters and with dots that a name character
follows; a trailing dot is no part of it. -/
def nameTail : List Char → Nat
  | [] => 0
  | c :: cs =>
      if isNameChar c then nameTail cs + 1
      else if c == '.' && cs.head?.any isNameChar then nameTail cs + 1
      else 0

def fractionTail : List Char → Nat
  | '.' :: cs => if startsWithDigit cs then runLength isDigit cs + 1 else 0
  | _ => 0

/-- An exponent counts only if it has a digit. -/
def exponentTail : List Char → Nat
  | mark :: cs =>
      if mark == 'e' || mark == 'E' then
        match cs with
        | sign :: rest =>
            if (sign == '+' || sign == '-') && startsWithDigit rest then runLength isDigit rest + 2
            else if isDigit sign then runLength isDigit cs + 1
            else 0
        | [] => 0
      else 0
  | [] => 0

/-- Digits, an optional fraction and an optional exponent. -/
def numberTail (cs : List Char) : Nat :=
  let whole := runLength isDigit cs
  let fraction := fractionTail (cs.drop whole)
  whole + fraction + exponentTail (cs.drop (whole + fraction))

/-- The characters up to and with the closing bracket. -/
def bracketTail? : List Char → Option Nat
  | [] => none
  | c :: cs => if c == ']' then some 1 else (bracketTail? cs).map (· + 1)

/-- The characters up to and with the closing quote, where a doubled quote
stands for itself. -/
def quoteTail? (quote : Char) : List Char → Option Nat
  | [] => none
  | [c] => if c == quote then some 1 else none
  | c :: d :: cs =>
      if c == quote then
        if d == quote then (quoteTail? quote cs).map (· + 2) else some 1
      else (quoteTail? quote (d :: cs)).map (· + 1)

/-- The text between the quotes, with each doubled quote read as one. -/
def unquote (quote : Char) : List Char → List Char
  | [] => []
  | [c] => if c == quote then [] else [c]
  | c :: d :: cs =>
      if c == quote then
        if d == quote then c :: unquote quote cs else []
      else c :: unquote quote (d :: cs)

def pairedOperations : List (Char × Char) :=
  [('<', '='), ('<', '>'), ('>', '='), ('!', '='), ('=', '='), ('=', '<'), ('=', '>'),
   ('&', '&'), ('|', '|')]

def operationTail (c : Char) (cs : List Char) : Nat :=
  if cs.head?.any fun d => pairedOperations.contains (c, d) then 1 else 0

def isBooleanWord (value : String) : Bool :=
  Text.sameIgnoringCase value "true" || Text.sameIgnoringCase value "false"

/-- What a lexeme turns out to be: the number of its characters after the
first, its token kind and value, and what is wrong with it. -/
structure Lexeme where
  tail : Nat
  kind : TokenKind
  value : String
  fault : Option Fault := none
  /-- A faulty lexeme that still counts as a token. -/
  kept : Bool := true

def wordLexeme (c : Char) (cs : List Char) : Lexeme :=
  let n := nameTail cs
  let value := String.ofList (c :: cs.take n)
  ⟨n, if isBooleanWord value then .boolean else .name, value, none, true⟩

def variableLexeme (cs : List Char) : Lexeme :=
  let n := runLength Text.isAlphanumeric cs
  ⟨n, .variable, String.ofList (cs.take n), none, true⟩

def bracketLexeme (cs : List Char) : Lexeme :=
  match bracketTail? cs with
  | none => ⟨cs.length, .bracketedName, "", some .expectingClosingSquareBracket, false⟩
  | some n =>
      let value := Text.trim (String.ofList (cs.take (n - 1)))
      if value.isEmpty then ⟨n, .bracketedName, "", some .emptyName, false⟩
      else ⟨n, .bracketedName, value, none, true⟩

def numberLexeme (c : Char) (cs : List Char) : Lexeme :=
  let n := if isDigit c then numberTail (c :: cs) - 1 else numberTail cs
  ⟨n, .number, String.ofList (c :: cs.take n), none, true⟩

def quoteLexeme (quote : Char) (cs : List Char) : Lexeme :=
  match quoteTail? quote cs with
  | none => ⟨cs.length, .string, String.ofList (unquote quote cs), some .expectingClosingQuote, true⟩
  | some n => ⟨n, .string, String.ofList (unquote quote (cs.take n)), none, true⟩

def operationLexeme (c : Char) (cs : List Char) : Lexeme :=
  let n := operationTail c cs
  ⟨n, .operation, String.ofList (c :: cs.take n), none, true⟩

/-- The lexeme that starts with `c`, which is not blank. -/
def lexeme (c : Char) (cs : List Char) : Lexeme :=
  if isNameStart c then wordLexeme c cs
  else if c == '@' then variableLexeme cs
  else if c == '[' then bracketLexeme cs
  else if isDigit c || ((c == '+' || c == '-') && startsWithDigit cs) then numberLexeme c cs
  else if c == '\'' || c == '"' then quoteLexeme c cs
  else operationLexeme c cs

/-- Scans the text that starts at byte `pos`. -/
def ofChars (pos : Nat) : List Char → Scan
  | [] => ⟨[], none⟩
  | c :: cs =>
      if Text.isBlank c then ofChars (pos + c.utf8Size) cs
      else
        let found := lexeme c cs
        let stop := pos + c.utf8Size + Text.byteLength (cs.take found.tail)
        let token : Token := ⟨found.kind, found.value, ⟨pos, stop⟩⟩
        match found.fault with
        | some cause =>
            ⟨if found.kept then [token] else [], some (.located cause token.span)⟩
        | none =>
            let rest := ofChars stop (cs.drop found.tail)
            ⟨token :: rest.tokens, rest.error⟩
termination_by cs => cs.length
decreasing_by all_goals simp [List.length_drop]; try omega

end Scan

/-- The tokens of a query text up to the first lexical error. -/
def scan (text : String) : Scan :=
  Scan.ofChars 0 text.toList

/-- The tokens of a query text, or its first lexical error. -/
def tokens (text : String) : Except Error (List Token) :=
  let result := scan text
  match result.error with
  | some error => .error error
  | none => .ok result.tokens

end TrackerQuery

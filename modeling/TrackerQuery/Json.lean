import TrackerQuery.Decimal.Integer

/-!
# Strict JSON

A reader for JSON texts that accepts exactly the grammar, and the pieces that
decoders of records are made of.  Numbers keep their text.  A string whose
escapes denote no text is well formed but has no value, which matters only to
a decoder that asks for it; the same holds of the keys of objects.
-/

namespace TrackerQuery

inductive Json where
  | null
  | bool (value : Bool)
  | number (text : String)
  | string (value : Option String)
  | array (items : List Json)
  | object (members : List (Option String × Json))
  deriving Repr, Inhabited

namespace Json

def isSpace (c : Char) : Bool :=
  c == ' ' || c == '\t' || c == '\n' || c == '\r'

def skipSpace (cs : List Char) : List Char :=
  cs.dropWhile isSpace

/-! ## Strings -/

def hexValue? (c : Char) : Option Nat :=
  if '0' ≤ c ∧ c ≤ '9' then some (c.toNat - '0'.toNat)
  else if 'a' ≤ c ∧ c ≤ 'f' then some (c.toNat - 'a'.toNat + 10)
  else if 'A' ≤ c ∧ c ≤ 'F' then some (c.toNat - 'A'.toNat + 10)
  else none

/-- A character of a string: itself, or the code unit of an escape. -/
inductive Unit16 where
  | char (c : Char)
  | code (n : Nat)

def simpleEscape? : Char → Option Char
  | '"' => some '"'
  | '\\' => some '\\'
  | '/' => some '/'
  | 'b' => some '\x08'
  | 'f' => some '\x0c'
  | 'n' => some '\n'
  | 'r' => some '\r'
  | 't' => some '\t'
  | _ => none

/-- The units up to the closing quote and the text after it. -/
def units? : List Char → Option (List Unit16 × List Char)
  | [] => none
  | '"' :: rest => some ([], rest)
  | '\\' :: 'u' :: a :: b :: c :: d :: rest => do
      let code := 4096 * (← hexValue? a) + 256 * (← hexValue? b) + 16 * (← hexValue? c)
        + (← hexValue? d)
      let (units, rest) ← units? rest
      return (.code code :: units, rest)
  | '\\' :: e :: rest => do
      let c ← simpleEscape? e
      let (units, rest) ← units? rest
      return (.char c :: units, rest)
  | c :: rest =>
      if c.toNat < 0x20 || c == '\\' then none
      else do
        let (units, rest) ← units? rest
        return (.char c :: units, rest)

def isHighSurrogate (n : Nat) : Bool :=
  0xD800 ≤ n && n < 0xDC00

def isLowSurrogate (n : Nat) : Bool :=
  0xDC00 ≤ n && n < 0xE000

/-- The text of the units, if every surrogate has its partner. -/
def text? : List Unit16 → Option (List Char)
  | [] => some []
  | .char c :: rest => (text? rest).map (c :: ·)
  | .code high :: .code low :: rest =>
      if isHighSurrogate high && isLowSurrogate low then
        let n := 0x10000 + (high - 0xD800) * 0x400 + (low - 0xDC00)
        (text? rest).map (Char.ofNat n :: ·)
      else if isHighSurrogate high || isLowSurrogate high then none
      else (text? (.code low :: rest)).map (Char.ofNat high :: ·)
  | .code n :: rest =>
      if isHighSurrogate n || isLowSurrogate n then none
      else (text? rest).map (Char.ofNat n :: ·)

/-! ## Numbers -/

def sign : List Char → List Char × List Char
  | '-' :: rest => (['-'], rest)
  | rest => ([], rest)

/-- Digits without a superfluous leading zero. -/
def integerPart? : List Char → Option (List Char × List Char)
  | '0' :: rest => some (['0'], rest)
  | cs =>
      let digits := cs.takeWhile Decimal.isDigit
      if digits.isEmpty then none else some (digits, cs.dropWhile Decimal.isDigit)

def digitsAfter? (mark : List Char) (cs : List Char) : Option (List Char × List Char) :=
  let digits := cs.takeWhile Decimal.isDigit
  if digits.isEmpty then none else some (mark ++ digits, cs.dropWhile Decimal.isDigit)

def fractionPart? : List Char → Option (List Char × List Char)
  | '.' :: rest => digitsAfter? ['.'] rest
  | rest => some ([], rest)

def exponentPart? : List Char → Option (List Char × List Char)
  | e :: rest =>
      if e == 'e' || e == 'E' then
        match rest with
        | s :: digits =>
            if s == '+' || s == '-' then digitsAfter? [e, s] digits else digitsAfter? [e] rest
        | [] => none
      else some ([], e :: rest)
  | [] => some ([], [])

def number? (cs : List Char) : Option (String × List Char) := do
  let (sign, rest) := sign cs
  let (whole, rest) ← integerPart? rest
  let (fraction, rest) ← fractionPart? rest
  let (exponent, rest) ← exponentPart? rest
  return (String.ofList (sign ++ whole ++ fraction ++ exponent), rest)

/-! ## Values -/

def word? (word : String) (value : Json) (cs : List Char) : Option (Json × List Char) :=
  if cs.take word.length == word.toList then some (value, cs.drop word.length) else none

mutual

/-- A value; `fuel` is more than the characters that are left. -/
def value? : (fuel : Nat) → List Char → Option (Json × List Char)
  | 0, _ => none
  | fuel + 1, cs =>
      match skipSpace cs with
      | '"' :: rest => do
          let (units, rest) ← units? rest
          return (.string ((text? units).map String.ofList), rest)
      | '[' :: rest =>
          match skipSpace rest with
          | ']' :: rest => some (.array [], rest)
          | _ => do
              let (items, rest) ← items? fuel rest
              return (.array items, rest)
      | '\x7b' :: rest =>
          match skipSpace rest with
          | '\x7d' :: rest => some (.object [], rest)
          | _ => do
              let (members, rest) ← members? fuel rest
              return (.object members, rest)
      | 't' :: rest => word? "true" (.bool true) ('t' :: rest)
      | 'f' :: rest => word? "false" (.bool false) ('f' :: rest)
      | 'n' :: rest => word? "null" .null ('n' :: rest)
      | rest => (number? rest).map fun (text, rest) => (.number text, rest)

/-- The items of an array that has one, up to its end. -/
def items? : (fuel : Nat) → List Char → Option (List Json × List Char)
  | 0, _ => none
  | fuel + 1, cs => do
      let (item, rest) ← value? fuel cs
      match skipSpace rest with
      | ',' :: rest => do
          let (items, rest) ← items? fuel rest
          return (item :: items, rest)
      | ']' :: rest => return ([item], rest)
      | _ => none

/-- The members of an object that has one, up to its end. -/
def members? : (fuel : Nat) → List Char → Option (List (Option String × Json) × List Char)
  | 0, _ => none
  | fuel + 1, cs =>
      match skipSpace cs with
      | '"' :: rest => do
          let (units, rest) ← units? rest
          let key := (text? units).map String.ofList
          match skipSpace rest with
          | ':' :: rest => do
              let (value, rest) ← value? fuel rest
              match skipSpace rest with
              | ',' :: rest => do
                  let (members, rest) ← members? fuel rest
                  return ((key, value) :: members, rest)
              | '\x7d' :: rest => return ([(key, value)], rest)
              | _ => none
          | _ => none
      | _ => none

end

/-- The value of a text that holds nothing else. -/
def parse? (text : String) : Option Json := do
  let cs := text.toList
  let (value, rest) ← value? (cs.length + 1) cs
  if (skipSpace rest).isEmpty then some value else none

/-! ## Decoding -/

def string? : Json → Option String
  | .string value => value
  | _ => none

def bool? : Json → Option Bool
  | .bool value => some value
  | _ => none

/-- An integer of 32 bits that is written as one. -/
def int32? : Json → Option Int
  | .number text => if text == "-0" then none else Decimal.int32? text
  | _ => none

/-- The members of an object with their keys, which all have to be texts. -/
def entries? : Json → Option (List (String × Json))
  | .object members => members.mapM fun (key, value) => key.map fun key => (key, value)
  | _ => none

/-- The member of a record type, by name.  A record may also be written as the
array of its members in order; then `keys` gives the place.  A member that
occurs twice is refused. -/
def members (keys : List String) : Json → Option (List (String × Json))
  | .array items => if items.length ≤ keys.length then some (keys.zip items) else none
  | json => do
      let known := (← json.entries?).filter fun (key, _) => keys.contains key
      if (known.map Prod.fst).Nodup then some known else none

/-- A member that has to be there. -/
def required {α : Type} (members : List (String × Json)) (key : String)
    (decode : Json → Option α) : Option α :=
  (members.lookup key).bind decode

/-- A member that has a default. -/
def optional {α : Type} (members : List (String × Json)) (key : String)
    (decode : Json → Option α) (default : α) : Option α :=
  match members.lookup key with
  | some value => decode value
  | none => some default

/-- A name out of a fixed set, as a string or as an object with that one key
and nothing behind it. -/
def variant? {α : Type} (names : List (String × α)) : Json → Option α
  | .string (some name) => names.lookup name
  | .object [(some name, .null)] => names.lookup name
  | _ => none

def array? : Json → Option (List Json)
  | .array items => some items
  | _ => none

end Json

end TrackerQuery

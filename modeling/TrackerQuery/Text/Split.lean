/-!
# Splitting text

Cutting a text at separator characters and at substrings.
-/

namespace TrackerQuery.Text

/-- The parts of a text between the characters that satisfy `p`; there is
always at least one. -/
def splitChars (p : Char → Bool) : List Char → List (List Char)
  | [] => [[]]
  | c :: cs =>
      if p c then [] :: splitChars p cs
      else
        match splitChars p cs with
        | part :: parts => (c :: part) :: parts
        | [] => [[c]]

def split (p : Char → Bool) (s : String) : List String :=
  (splitChars p s.toList).map String.ofList

/-- The text before and after the first character that satisfies `p`. -/
def cut? (p : Char → Bool) (cs : List Char) : Option (List Char × List Char) :=
  match cs.dropWhile (!p ·) with
  | [] => none
  | _ :: rest => some (cs.takeWhile (!p ·), rest)

/-- The text after `pattern`, if the text starts with it. -/
def dropStart? : (pattern : List Char) → List Char → Option (List Char)
  | [], cs => some cs
  | p :: ps, c :: cs => if p = c then dropStart? ps cs else none
  | _ :: _, [] => none

/-- The text before and after the last occurrence of `pattern`. -/
def cutLast? (pattern : List Char) : List Char → Option (List Char × List Char)
  | [] => if pattern.isEmpty then some ([], []) else none
  | c :: cs =>
      match cutLast? pattern cs with
      | some (before, after) => some (c :: before, after)
      | none => (dropStart? pattern (c :: cs)).map ([], ·)

def containsText (pattern : List Char) (cs : List Char) : Bool :=
  (cutLast? pattern cs).isSome

def startsWith (s pattern : String) : Bool :=
  (dropStart? pattern.toList s.toList).isSome

end TrackerQuery.Text

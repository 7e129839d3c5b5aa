import TrackerQuery.Text.Cluster.Kind

/-!
# Clusters

A text as the sequence of what a reader takes for one sign: a character with
its marks, a syllable, a flag, pictures that are joined.  Whether a character
goes on with the cluster before it depends on the kinds of both, and in three
cases on more of what stands before: two regional indicators make a flag, a
joiner joins only pictographs, and a linker only consonants.
-/

namespace TrackerQuery.Text

namespace Cluster

/-- How far a pictograph and what may follow it have been read. -/
inductive Picture where
  | none
  | marks
  | joined
  deriving DecidableEq, Repr, Inhabited

/-- How far a consonant and what may follow it have been read. -/
inductive Conjunct where
  | none
  | consonant
  | linked
  deriving DecidableEq, Repr, Inhabited

/-- What has been read of a text, as far as it matters to the next character. -/
structure Past where
  last : Kind
  /-- The indicators at the end are odd in number. -/
  oddIndicators : Bool := false
  picture : Picture := .none
  conjunct : Conjunct := .none
  deriving DecidableEq, Repr, Inhabited

namespace Picture

def next (picture : Picture) (c : Char) (kind : Kind) : Picture :=
  if pictographRanges.covers c then marks
  else
    match picture, kind with
    | marks, .extend => marks
    | marks, .joiner => joined
    | _, _ => none

end Picture

namespace Conjunct

/-- Marks and joiners may stand between consonants and linkers; the sign that
keeps letters apart may not. -/
def next (conjunct : Conjunct) (c : Char) (kind : Kind) : Conjunct :=
  if consonantRanges.covers c then consonant
  else if conjunct = none then none
  else if linkerRanges.covers c then linked
  else if (kind = .extend && c ≠ '\u200C') || kind = .joiner then conjunct
  else none

end Conjunct

namespace Past

def start (c : Char) : Past :=
  let kind := Kind.ofChar c
  { last := kind
    oddIndicators := kind = .indicator
    picture := Picture.none.next c kind
    conjunct := Conjunct.none.next c kind }

def next (past : Past) (c : Char) : Past :=
  let kind := Kind.ofChar c
  { last := kind
    oddIndicators := kind = .indicator && !(past.last = .indicator && past.oddIndicators)
    picture := past.picture.next c kind
    conjunct := past.conjunct.next c kind }

end Past

def isBreaking : Kind → Bool
  | .carriageReturn | .lineFeed | .control => true
  | _ => false

/-- Two parts of one Hangul syllable. -/
def sameSyllable : Kind → Kind → Bool
  | .leading, .leading | .leading, .vowel | .leading, .openSyllable
  | .leading, .closedSyllable => true
  | .openSyllable, .vowel | .openSyllable, .trailing | .vowel, .vowel | .vowel, .trailing => true
  | .closedSyllable, .trailing | .trailing, .trailing => true
  | _, _ => false

/-- The character goes on with the cluster that the past ends with. -/
def continues (past : Past) (c : Char) : Bool :=
  let kind := Kind.ofChar c
  if past.last = .carriageReturn && kind = .lineFeed then true
  else if isBreaking past.last || isBreaking kind then false
  else
    sameSyllable past.last kind
      || kind = .extend || kind = .joiner || kind = .spacing || past.last = .prepended
      || (past.conjunct = .linked && consonantRanges.covers c)
      || (past.picture = .joined && pictographRanges.covers c)
      || (past.last = .indicator && past.oddIndicators && kind = .indicator)

/-- The clusters of a text whose first one has begun with `current`, given in
reverse. -/
def splitFrom (past : Past) (current : List Char) : List Char → List (List Char)
  | [] => [current.reverse]
  | c :: cs =>
      if continues past c then splitFrom (past.next c) (c :: current) cs
      else current.reverse :: splitFrom (past.next c) [c] cs

end Cluster

def clusters : List Char → List (List Char)
  | [] => []
  | c :: cs => Cluster.splitFrom (.start c) [c] cs

end TrackerQuery.Text

/-!
# Character ranges

A class of characters is given by the ranges of code points it covers, in
increasing order.  A long table is written as the lengths of its runs.
-/

namespace TrackerQuery.Text

/-- Inclusive ranges of code points, in increasing order. -/
abbrev Ranges := List (Nat × Nat)

namespace Ranges

def runsFrom (start : Nat) : List Nat → Ranges
  | outside :: inside :: rest =>
      (start + outside, start + outside + inside - 1)
        :: runsFrom (start + outside + inside) rest
  | _ => []

/-- The class whose runs have these lengths: code points outside the class and
inside it in turn, from zero on. -/
def ofRuns (runs : List Nat) : Ranges :=
  runsFrom 0 runs

/-- The search stops at the first range that lies above the code point. -/
def coversCode : Ranges → Nat → Bool
  | [], _ => false
  | (first, last) :: rest, code =>
      if code < first then false
      else if code ≤ last then true
      else coversCode rest code

def covers (ranges : Ranges) (c : Char) : Bool :=
  ranges.coversCode c.toNat

end Ranges

end TrackerQuery.Text

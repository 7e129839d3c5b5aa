/-!
# Spans

Half-open ranges of byte offsets into the UTF-8 text of a query.
-/

namespace TrackerQuery

/-- The bytes from `start` up to, but not including, `stop`. -/
structure Span where
  start : Nat := 0
  stop : Nat := 0
  deriving DecidableEq, Repr, Inhabited

namespace Span

/-- The least span that covers both. -/
def cover (a b : Span) : Span :=
  ⟨min a.start b.start, max a.stop b.stop⟩

def length (s : Span) : Nat :=
  s.stop - s.start

def isEmpty (s : Span) : Bool :=
  s.length == 0

def render (s : Span) : String :=
  s!"{s.start}..{s.stop}"

/-- The span from the start of the first item to the end of the last one. -/
def coverAll : List Span → Span
  | [] => {}
  | first :: rest => first.cover (rest.getLast?.getD first)

end Span

end TrackerQuery

import TrackerQuery.Text.Bytes
import TrackerQuery.Text.Cluster

/-!
# Typed lines

A line may hold backspaces; each takes back the cluster that was typed before
it.
-/

namespace TrackerQuery.Text

/-- What has been typed of a line. -/
structure Typed where
  /-- The characters, the last one first. -/
  chars : List Char := []
  /-- The bytes that each cluster takes, the last one first.  They are kept in
  one byte, so a cluster of more than 255 bytes is taken back in part only. -/
  sizes : List Nat := []
  deriving DecidableEq, Repr, Inhabited

/-- Leaves out the first bytes of a text. -/
def dropBytes : Nat → List Char → List Char
  | _, [] => []
  | 0, c :: cs => c :: cs
  | size + 1, c :: cs => dropBytes (size + 1 - c.utf8Size) cs
termination_by structural _ cs => cs

namespace Typed

def backspace (typed : Typed) : Typed :=
  match typed.sizes with
  | [] => typed
  | size :: sizes => { chars := dropBytes size typed.chars, sizes }

def cluster (typed : Typed) (cs : List Char) : Typed :=
  if cs = ['\x08'] then typed.backspace
  else { chars := cs.reverse ++ typed.chars, sizes := byteLength cs % 256 :: typed.sizes }

end Typed

/-- A line with its backspaces carried out. -/
def typed (line : String) : String :=
  String.ofList ((clusters line.toList).foldl Typed.cluster {}).chars.reverse

end TrackerQuery.Text

/-!
# Byte offsets

Places in a text are counted in bytes of its UTF-8 form.
-/

namespace TrackerQuery.Text

def byteLength (cs : List Char) : Nat :=
  cs.foldr (fun c n => c.utf8Size + n) 0

/-- The whole characters before a byte offset. -/
def before : (offset : Nat) → List Char → List Char
  | _, [] => []
  | offset, c :: cs =>
      if c.utf8Size ≤ offset then c :: before (offset - c.utf8Size) cs else []

/-- The number of characters before a byte offset, if a character starts or
the text ends there. -/
def charsBefore? : (offset : Nat) → List Char → Option Nat
  | 0, _ => some 0
  | _ + 1, [] => none
  | offset + 1, c :: cs =>
      if offset + 1 < c.utf8Size then none
      else (charsBefore? (offset + 1 - c.utf8Size) cs).map (· + 1)
termination_by structural _ cs => cs

end TrackerQuery.Text

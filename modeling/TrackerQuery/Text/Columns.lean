import TrackerQuery.Text.Emoji
import TrackerQuery.Text.Ligature

/-!
# Widths of texts

How many columns a text takes in a terminal.  Most characters take what they
take alone, but some are drawn together with those after them: letters in
ligatures, pictures with a skin tone or joined to other pictures, and
characters with a selector that asks for a picture or for text.  A text is
therefore measured from its end, and each character is given what it takes in
front of what was measured before.
-/

namespace TrackerQuery.Text

/-- The sign that joins the pictures or letters around it. -/
def joiner : Char := '\u200D'

/-- How the beginning of a text can go together with a character before it. -/
inductive Link where
  | free
  | lineFeed
  | alef
  /-- A letter that goes together with another one over a joiner; `joined` if
  the joiner stands before it. -/
  | lamed (joined : Bool)
  | ya (joined : Bool)
  | orkhonI (joined : Bool)
  | tifinagh (joined : Bool)
  /-- The vowel sign i, a joiner and the letter ya. -/
  | vowelYa
  /-- The Tifinagh joiner and a consonant. -/
  | tifinaghPair
  | secondTone
  | subscript
  | picture
  | modifier
  /-- One regional indicator, and more than one. -/
  | indicator
  | indicators
  /-- A joiner and a picture, and what may stand before these two. -/
  | joinedPicture
  | joinedKeycap
  | joinedIndicator
  | joinedEvenIndicators
  | joinedOddIndicators
  /-- The end of a sequence of tags, which spells a region after a flag:
  `letters` tag letters and before them `digits` tag digits. -/
  | joinedTags (letters digits : Nat)
  deriving DecidableEq, Repr, Inhabited

/-- A variation selector asks for one of two shapes of the character before. -/
inductive Shape where
  | picture
  | text
  deriving DecidableEq, Repr, Inhabited

/-- What a character stands in front of. -/
structure Tail where
  link : Link := .free
  /-- The shape that is asked of the character. -/
  shape : Option Shape := none
  deriving DecidableEq, Repr, Inhabited

namespace Link

/-- Letters of ligatures that invisible marks and joiners do not keep apart. -/
def isLoose : Link → Bool
  | lamed _ | ya _ | orkhonI _ | tifinagh _ | vowelYa | tifinaghPair | secondTone | subscript => true
  | _ => false

/-- Letters of ligatures that a selector does not keep apart. -/
def isLetter (link : Link) : Bool :=
  link = alef || link.isLoose

/-- With a joiner before it. -/
def join : Link → Link
  | lamed _ => lamed true
  | ya _ => ya true
  | orkhonI _ => orkhonI true
  | tifinagh _ => tifinagh true
  | link => link

/-- What a character offers to the one before it. -/
def ofChar (c : Char) : Link :=
  if isAlef c then alef
  else if c = '\u05DC' then lamed false
  else if c = '\u1A10' then ya false
  else if c.toNat = 0x10C03 then orkhonI false
  else if isTifinaghConsonant c then tifinagh false
  else if isSecondTone c then secondTone
  else if subscriptLetters.covers c then subscript
  else if isRegionalIndicator c then indicator
  else if isModifier c then modifier
  else if isPicture c then picture
  else free

/-- A tag letter or digit, or the flag that tags follow.  Tags spell three to
six letters, or three digits and at most four letters. -/
def beforeTags? (c : Char) (letters digits : Nat) : Option Link :=
  if 0xE0061 ≤ c.toNat && c.toNat ≤ 0xE007A then
    if digits = 0 && letters < 6 then some (joinedTags (letters + 1) 0) else none
  else if 0xE0030 ≤ c.toNat && c.toNat ≤ 0xE0039 then
    if letters ≤ 4 && digits < 3 then some (joinedTags letters (digits + 1)) else none
  else if c.toNat = 0x1F3F4 then
    if digits = 3 || (digits = 0 && 3 ≤ letters) then some picture else none
  else none

/-- The columns that a character adds when it goes together with what follows,
and what the two offer to the character before them.  A ligature is as wide as
its last letter; a negative number takes back what was counted for a sign that
is not shown. -/
def before? (link : Link) (c : Char) : Option (Int × Link) :=
  match link with
  | alef => if isLam c then some (0, free) else if isTransparent c then some (0, alef) else none
  | lamed true => if c = '\u05D0' then some (0, free) else none
  | ya true => if c = '\u1A17' then some (0, vowelYa) else none
  | vowelYa => if c = '\u1A15' then some (0, free) else none
  | orkhonI true => if c.toNat = 0x10C32 then some (0, free) else none
  | tifinagh joined =>
      if c = '\u2D7F' then some (1, tifinaghPair)
      else if joined && isTifinaghConsonant c then some (0, free)
      else none
  | tifinaghPair => if isTifinaghConsonant c then some (-1, free) else none
  | secondTone => if isFirstTone c then some (0, free) else none
  | subscript => if c = '\u17D2' then some (-1, free) else none
  | picture => if c = joiner then some (0, joinedPicture) else none
  | modifier =>
      if isModifierBase c then some (0, picture)
      else if c = joiner then some (0, joinedPicture)
      else none
  | indicator => if isRegionalIndicator c then some (1, indicators) else none
  | indicators =>
      if isRegionalIndicator c then some (1, indicators)
      else if c = joiner then some (0, joinedPicture)
      else none
  | joinedPicture =>
      if c = '\u20E3' then some (0, joinedKeycap)
      else if isRegionalIndicator c then some (1, joinedIndicator)
      else if isModifier c then some (0, modifier)
      else if c.toNat = 0xE007F then some (0, joinedTags 0 0)
      else if isPicture c then some (0, picture)
      else none
  | joinedIndicator => if isRegionalIndicator c then some (-1, joinedEvenIndicators) else none
  | joinedEvenIndicators =>
      if isRegionalIndicator c then some (3, joinedOddIndicators)
      else if c = joiner then some (0, joinedPicture)
      else none
  | joinedOddIndicators =>
      if isRegionalIndicator c then some (-1, joinedEvenIndicators)
      else if c = joiner then some (0, joinedPicture)
      else none
  | joinedTags letters digits => (beforeTags? c letters digits).map fun link => (0, link)
  | _ => none

end Link

namespace Tail

/-- A selector before a text.  It leaves letters of ligatures, and the picture
selector also what is joined to a picture, as they are. -/
def select (link : Link) (shape : Shape) : Tail :=
  let keeps := link.isLetter ||
    (shape = .picture && (link = .joinedPicture || link = .joinedKeycap))
  { link := if keeps then link else .free, shape := some shape }

/-- What is left for a character that does not take the shape asked for. -/
def settled (tail : Tail) : Link :=
  if tail.shape.isNone || tail.link.isLetter then tail.link else .free

/-- The columns of a character that is not asked for a shape. -/
def plainStep (c : Char) (link : Link) : Int × Tail :=
  if link.isLoose && c = joiner then (0, { link := link.join })
  else if link.isLoose && ignorableMarks.covers c then (0, { link })
  else
    match link.before? c with
    | some (columns, link) => (columns, { link })
    | none => (charWidth c, { link := .ofChar c })

/-- The columns that a character takes in front of a tail, and the tail that
begins with it. -/
def step (tail : Tail) (c : Char) : Int × Tail :=
  if tail.shape = some .picture && isSelectable c then
    let joined := tail.link = .joinedPicture || tail.link = .joinedKeycap
    (if joined then 0 else 2, { link := .picture })
  else if c.toNat ≤ 0xA0 then
    (if c = '\r' && tail.settled = .lineFeed then 0 else 1,
      { link := if c = '\n' then .lineFeed else .free })
  else if c = '\uFE0F' then (0, select tail.settled .picture)
  else if c = '\uFE0E' then (0, select tail.settled .text)
  else if tail.shape = some .text && isTextSelectable c then (1, {})
  else plainStep c tail.settled

end Tail

/-- The columns of a text and the tail that it is. -/
def measure (cs : List Char) : Int × Tail :=
  cs.foldr (fun c (columns, tail) =>
    let (more, tail) := tail.step c
    (more + columns, tail)) (0, {})

/-- The columns of a text. -/
def width (s : String) : Nat :=
  (measure s.toList).1.toNat

end TrackerQuery.Text

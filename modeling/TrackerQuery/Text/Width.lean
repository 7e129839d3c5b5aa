import TrackerQuery.Text.Cluster.Marks
import TrackerQuery.Text.Emoji

/-!
# Widths of characters

How many columns a character takes in a terminal when it stands alone: wide and
full-width characters take two, marks that extend another character and
invisible characters none, one Khmer sign three, all others one.
-/

namespace TrackerQuery.Text

/-- Characters other than pictures that take two columns. -/
def wideRanges : Ranges :=
  .ofRuns [4352, 96, 1604, 1, 2948, 2, 2901, 26, 1, 89, 12, 214, 26, 58, 6, 15, 2, 86, 4, 101, 5,
    43, 1, 51, 1, 42, 1, 84, 11, 48, 1, 40, 8, 7024, 64, 22157, 3, 55, 1177, 29, 643, 11172, 8540,
    512, 784, 10, 22, 35, 1, 19, 1, 4, 149, 96, 127, 7, 28665, 4, 12, 2, 14, 6136, 8, 1238, 42, 9,
    8935, 4, 1, 7, 1, 2, 1, 291, 15, 1, 29, 3, 2, 1, 14, 4, 8, 396, 16132, 1, 1, 1, 13, 10, 1, 20,
    1, 2, 5, 1, 3, 1, 4, 9, 23, 6, 405, 5, 3072, 65534, 2, 65534]

def isWide (c : Char) : Bool :=
  isPicture c || wideRanges.covers c

/-- Marks that take a column although they extend a character. -/
def visibleMarkRanges : Ranges :=
  .ofRuns [2199, 1, 3709, 1, 30, 1, 922, 15, 2, 12, 88, 1, 101, 1, 71, 2, 4491, 1, 31699, 1, 108,
    1, 25512, 5, 396, 3, 707, 1, 116, 1, 279, 1, 106, 1, 2, 6, 1, 1, 2, 1, 1, 3, 4, 3, 1, 1, 14, 2,
    723, 1, 646, 1, 546, 1, 1, 3, 1, 1, 986, 1, 24, 1, 16835, 12, 3, 3, 3776, 2, 24948, 1, 6, 1,
    5248, 2, 243, 1, 2, 1, 7, 2, 5, 1, 3333, 5]

/-- Characters that combine with the one after them or are invisible. -/
def invisibleRanges : Ranges :=
  .ofRuns [173, 1, 1367, 1, 22, 1, 242, 1, 384, 2, 80, 1, 1131, 1, 1041, 160, 1550, 1, 2044, 1, 1,
    3, 26, 5, 49, 16, 4340, 1, 30613, 1, 11957, 23, 4, 49, 9987, 1, 160, 1, 79, 9, 4553, 2, 1370,
    1, 544, 1, 1, 1, 248, 1, 73, 6, 700, 1, 443, 1, 40349, 4, 5327, 8, 798341, 32, 96, 128, 240,
    3600]

/-- The character takes no column. -/
def isInvisible (c : Char) : Bool :=
  invisibleRanges.covers c || Cluster.extendRanges.covers c && !visibleMarkRanges.covers c

def isControl (c : Char) : Bool :=
  c.toNat < 0x20 || (0x7F ≤ c.toNat && c.toNat < 0xA0)

/-- The columns of a character.  A control character takes one, as the sign
that is shown for it. -/
def charWidth (c : Char) : Nat :=
  if c.toNat ≤ 0xA0 then 1
  else if c = '\u17D8' then 3
  else if isInvisible c then 0
  else if isWide c then 2
  else 1

end TrackerQuery.Text

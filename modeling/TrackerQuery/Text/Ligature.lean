import TrackerQuery.Text.Width

/-!
# Ligatures

The letters that are drawn as one sign with a letter before or after them, and
the marks that may stand between the two.
-/

namespace TrackerQuery.Text

/-! ## Arabic -/

def alefRanges : Ranges :=
  [(0x622, 0x623), (0x625, 0x625), (0x627, 0x627), (0x671, 0x673), (0x675, 0x675), (0x773, 0x774),
   (0x870, 0x882)]

def lamRanges : Ranges :=
  [(0x644, 0x644), (0x6B5, 0x6B8), (0x76A, 0x76A), (0x8A6, 0x8A6), (0x8C7, 0x8C7)]

/-- Characters without a column that do end the joining of the letters around them. -/
def closedRanges : Ranges :=
  .ofRuns [1541, 1, 650, 2, 80, 1, 219, 1, 24, 1, 358, 1, 24, 1, 102, 1, 24, 1, 232, 1, 1, 1, 4, 2,
    1, 2, 9, 2, 103, 1, 15, 1, 8, 1, 119, 1, 15, 1, 896, 160, 1550, 1, 806, 1, 5, 1, 1, 1, 5, 1,
    1224, 2, 87, 5, 4036, 2, 308, 1, 30613, 1, 11957, 23, 4, 49, 10146, 3, 79, 9, 4553, 2, 378, 1,
    24, 1, 344, 1, 12, 1, 241, 1, 896, 1, 14, 1, 1, 1, 248, 1, 73, 6, 700, 1, 443, 1, 45666, 1, 8,
    5, 798349, 1, 1, 30, 96, 128, 240, 3600]

def isAlef (c : Char) : Bool :=
  alefRanges.covers c

def isLam (c : Char) : Bool :=
  lamRanges.covers c

/-- A mark that may stand between two Arabic letters that join. -/
def isTransparent (c : Char) : Bool :=
  charWidth c = 0 && !closedRanges.covers c

/-! ## Other scripts -/

/-- An invisible mark that may stand inside a ligature. -/
def ignorableMarks : Ranges :=
  [(0x34F, 0x34F), (0x17B4, 0x17B5), (0x180B, 0x180D), (0x180F, 0x180F), (0xFE00, 0xFE0F),
   (0xE0100, 0xE01EF)]

/-- Khmer letters that go below the letter before them when the sign coeng
stands between the two. -/
def subscriptLetters : Ranges :=
  [(0x1780, 0x1782), (0x1784, 0x1787), (0x1789, 0x178C), (0x178E, 0x1793), (0x1795, 0x1798),
   (0x179B, 0x179D), (0x17A0, 0x17A0), (0x17A2, 0x17A2), (0x17A7, 0x17A7), (0x17AB, 0x17AC),
   (0x17AF, 0x17AF)]

def isTifinaghConsonant (c : Char) : Bool :=
  (0x2D31 ≤ c.toNat && c.toNat ≤ 0x2D65) || c = '\u2D6F'

/-- Lisu tone letters that begin a pair. -/
def isFirstTone (c : Char) : Bool :=
  0xA4F8 ≤ c.toNat && c.toNat ≤ 0xA4FB

/-- Lisu tone letters that end a pair. -/
def isSecondTone (c : Char) : Bool :=
  0xA4FC ≤ c.toNat && c.toNat ≤ 0xA4FD

end TrackerQuery.Text

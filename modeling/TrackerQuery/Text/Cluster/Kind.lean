import TrackerQuery.Text.Cluster.Marks

/-!
# Kinds of characters in clusters

What a character is with respect to the ends of clusters: the characters that a
reader takes for one sign.
-/

namespace TrackerQuery.Text.Cluster

/-- Control and format characters, without the carriage return and the line feed. -/
def controlRanges : Ranges :=
  .ofRuns [0, 10, 1, 2, 1, 18, 95, 33, 13, 1, 1390, 1, 4593, 1, 2044, 1, 2, 2, 24, 7, 49, 16, 56975,
    1, 240, 12, 13364, 16, 34912, 4, 5327, 8, 798341, 32, 96, 128, 240, 3600]

/-- Signs that belong to the character after them. -/
def prependedRanges : Ranges :=
  .ofRuns [1536, 6, 215, 1, 49, 1, 384, 2, 80, 1, 1131, 1, 66414, 1, 15, 1, 244, 2, 525, 1, 1389, 1,
    1, 1, 322, 6, 700, 1, 443, 1]

/-- Pictographs, which a joiner joins. -/
def pictographRanges : Ranges :=
  .ofRuns [169, 1, 4, 1, 8077, 1, 12, 1, 216, 1, 22, 1, 90, 6, 15, 2, 367, 2, 12, 1, 166, 1, 25, 11,
    4, 3, 199, 1, 231, 2, 10, 1, 9, 1, 58, 4, 1, 5, 9, 1, 2, 1, 2, 2, 2, 1, 4, 1, 2, 1, 1, 2, 2, 1,
    3, 1, 3, 2, 8, 3, 5, 1, 1, 1, 5, 12, 11, 2, 2, 1, 1, 2, 1, 1, 18, 1, 2, 2, 18, 6, 1, 1, 1, 2, 3,
    2, 5, 1, 2, 2, 4, 2, 11, 2, 5, 2, 2, 1, 5, 2, 1, 1, 1, 2, 20, 2, 5, 6, 1, 4, 2, 1, 4, 1, 2, 1,
    2, 6, 1, 1, 2, 1, 1, 1, 1, 1, 6, 1, 3, 1, 6, 1, 10, 2, 15, 1, 2, 1, 4, 1, 1, 1, 4, 3, 1, 1, 11,
    2, 48, 3, 9, 1, 14, 1, 14, 1, 372, 2, 463, 3, 19, 2, 51, 1, 4, 1, 1242, 1, 12, 1, 601, 1, 1, 1,
    114026, 1, 39, 4, 100, 12, 15, 2, 15, 1, 14, 2, 37, 10, 112, 2, 12, 2, 14, 1, 2, 10, 19, 56, 27,
    15, 10, 1, 20, 1, 2, 9, 1, 4, 9, 23, 6, 188, 2, 112, 2, 2, 1, 3, 2, 83, 2, 3, 1, 4, 5, 254, 1,
    63, 11, 6, 1, 24, 7, 2, 2, 8, 12, 1, 2, 4, 2, 1, 4, 2, 13, 2, 2, 1, 8, 2, 9, 1, 5, 3, 12, 3, 8,
    3, 2, 1, 1, 1, 4, 1, 6, 1, 3, 1, 6, 86, 48, 70, 5, 8, 2, 17, 3, 1, 1, 6, 2, 13, 218, 38, 12, 4,
    56, 8, 10, 6, 40, 8, 30, 2, 12, 4, 2, 14, 9, 39, 12, 47, 1, 10, 1, 185, 88, 8, 14, 146, 256,
    1022]

/-- Consonants of scripts that write several of them as one sign. -/
def consonantRanges : Ranges :=
  .ofRuns [2325, 37, 30, 8, 24, 8, 21, 20, 1, 7, 1, 1, 3, 4, 34, 2, 1, 1, 16, 2, 163, 20, 1, 7, 1,
    2, 1, 5, 63, 1, 27, 20, 1, 7, 1, 2, 1, 5, 34, 2, 1, 1, 17, 1, 163, 20, 1, 16, 30, 3, 186, 38,
    709, 43, 20, 1, 16, 6, 4, 4, 3, 1, 3, 2, 7, 3, 4, 13, 12, 1, 1777, 52, 620, 53, 182, 2, 6, 33,
    17, 8, 54, 30, 13, 2, 11, 3, 36299, 3, 3, 36, 45, 5, 2, 9, 10, 5, 97, 16, 1, 3, 6, 1, 3, 2, 96,
    11, 213, 27, 24101, 1, 15, 4, 1, 3, 1, 29, 1741, 36, 29, 1, 2, 1, 568, 10, 1, 1, 2, 1, 1, 38,
    1354, 7, 2, 1, 2, 8, 1, 2, 1, 24, 208, 1, 10, 40, 29, 1, 11, 40, 1152, 13, 1, 34]

/-- Signs that link two such consonants. -/
def linkerRanges : Ranges :=
  .ofRuns [2381, 1, 127, 1, 255, 1, 127, 1, 255, 1, 255, 1, 747, 1, 1944, 1, 653, 1, 227, 1, 102, 1,
    36372, 1, 309, 1, 24392, 1, 1779, 1, 668, 1, 1389, 1, 264, 1, 81, 1, 1192, 1]

inductive Kind where
  | other
  | carriageReturn
  | lineFeed
  | control
  | extend
  | joiner
  | indicator
  | prepended
  | spacing
  /-- Parts of a Hangul syllable. -/
  | leading
  | vowel
  | trailing
  /-- Hangul syllables without and with a trailing consonant. -/
  | openSyllable
  | closedSyllable
  deriving DecidableEq, Repr, Inhabited

def isLeading (n : Nat) : Bool :=
  (0x1100 ≤ n && n ≤ 0x115F) || (0xA960 ≤ n && n ≤ 0xA97C)

def isVowel (n : Nat) : Bool :=
  (0x1160 ≤ n && n ≤ 0x11A7) || (0xD7B0 ≤ n && n ≤ 0xD7C6) || n = 0x16D63 ||
    (0x16D67 ≤ n && n ≤ 0x16D6A)

def isTrailing (n : Nat) : Bool :=
  (0x11A8 ≤ n && n ≤ 0x11FF) || (0xD7CB ≤ n && n ≤ 0xD7FB)

def isSyllable (n : Nat) : Bool :=
  0xAC00 ≤ n && n ≤ 0xD7A3

def Kind.ofChar (c : Char) : Kind :=
  if c = '\r' then .carriageReturn
  else if c = '\n' then .lineFeed
  else if c = '\u200D' then .joiner
  else if 0x1F1E6 ≤ c.toNat && c.toNat ≤ 0x1F1FF then .indicator
  else if isLeading c.toNat then .leading
  else if isVowel c.toNat then .vowel
  else if isTrailing c.toNat then .trailing
  else if isSyllable c.toNat then
    if (c.toNat - 0xAC00) % 28 = 0 then .openSyllable else .closedSyllable
  else if controlRanges.covers c then .control
  else if extendRanges.covers c then .extend
  else if spacingRanges.covers c then .spacing
  else if prependedRanges.covers c then .prepended
  else .other

end TrackerQuery.Text.Cluster

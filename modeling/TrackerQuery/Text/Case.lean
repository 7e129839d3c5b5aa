import TrackerQuery.Text.Cluster.Marks

/-!
# Letter case

Two notions of case.  Names and keywords are compared without regard to the
case of the 26 ASCII letters only.  Completion folds whole words with the full
Unicode mappings, under which one character may become several and a capital
sigma at the end of a word becomes a final sigma.
-/

namespace TrackerQuery.Text

/-- Lower case of an ASCII letter; every other character stays as it is. -/
def asciiLower (c : Char) : Char :=
  if 'A' ≤ c ∧ c ≤ 'Z' then Char.ofNat (c.toNat + 32) else c

def asciiLowercase (s : String) : String :=
  String.ofList (s.toList.map asciiLower)

/-- Equality up to the case of ASCII letters. -/
def sameIgnoringCase (a b : String) : Bool :=
  a.toList.map asciiLower == b.toList.map asciiLower

/-- `count` capitals from `first` on, with the small letters `shift` places
further.  Small letters one place further stand between the capitals. -/
structure CaseRun where
  first : Nat
  count : Nat
  shift : Int

namespace CaseRun

/-- Runs in increasing order, with the distance to the run before in place of
the first capital. -/
def ofTable (previous : Nat) : List Int → List CaseRun
  | distance :: count :: shift :: rest =>
      let first := previous + distance.toNat
      ⟨first, count.toNat, shift⟩ :: ofTable first rest
  | _ => []

def holds (run : CaseRun) (code : Nat) : Bool :=
  let step := if run.shift = 1 then 2 else 1
  run.first ≤ code && (code - run.first) % step == 0 && (code - run.first) / step < run.count

def lower? (run : CaseRun) (code : Nat) : Option Nat :=
  if run.holds code then some (code + run.shift).toNat else none

def upper? (run : CaseRun) (code : Nat) : Option Nat :=
  let capital := (code - run.shift).toNat
  if run.holds capital then some capital else none

end CaseRun

def caseRuns : List CaseRun :=
  CaseRun.ofTable 0 [65, 26, 32, 127, 23, 32, 24, 7, 32, 40, 24, 1, 50, 3, 1, 7, 8, 1, 17, 23, 1,
    46, 1, -121, 1, 3, 1, 8, 1, 210, 1, 2, 1, 4, 1, 206, 1, 1, 1, 2, 2, 205, 2, 1, 1, 3, 1, 79, 1,
    1, 202, 1, 1, 203, 1, 1, 1, 2, 1, 205, 1, 1, 207, 2, 1, 211, 1, 1, 209, 1, 1, 1, 4, 1, 211, 1,
    1, 213, 2, 1, 214, 1, 3, 1, 6, 1, 218, 1, 1, 1, 2, 1, 218, 3, 1, 1, 2, 1, 218, 1, 1, 1, 2, 2,
    217, 2, 2, 1, 4, 1, 219, 1, 1, 1, 4, 1, 1, 8, 1, 2, 1, 1, 1, 2, 1, 2, 1, 1, 1, 2, 1, 2, 1, 9, 1,
    19, 9, 1, 19, 1, 2, 1, 2, 1, 4, 1, -97, 1, 1, -56, 1, 20, 1, 40, 1, -130, 2, 9, 1, 24, 1, 10795,
    1, 1, 1, 2, 1, -163, 1, 1, 10792, 3, 1, 1, 2, 1, -195, 1, 1, 69, 1, 1, 71, 1, 5, 1, 298, 2, 1,
    6, 1, 1, 9, 1, 116, 7, 1, 38, 2, 3, 37, 4, 1, 64, 2, 2, 63, 3, 17, 32, 18, 9, 32, 44, 1, 8, 9,
    12, 1, 28, 1, -60, 3, 1, 1, 2, 1, -7, 1, 1, 1, 3, 3, -130, 3, 16, 80, 16, 32, 32, 80, 17, 1, 42,
    27, 1, 54, 1, 15, 1, 7, 1, 15, 48, 1, 97, 38, 48, 2927, 38, 7264, 39, 1, 7264, 6, 1, 7264, 723,
    80, 38864, 80, 6, 8, 2201, 1, 1, 7, 43, -3008, 45, 3, -3008, 323, 75, 1, 158, 1, -7615, 2, 48,
    1, 104, 8, -8, 16, 6, -8, 16, 8, -8, 16, 8, -8, 16, 6, -8, 17, 1, -8, 2, 1, -8, 2, 1, -8, 2, 1,
    -8, 9, 8, -8, 32, 8, -8, 16, 8, -8, 16, 8, -8, 16, 2, -8, 2, 2, -74, 2, 1, -9, 12, 4, -86, 4, 1,
    -9, 12, 2, -8, 2, 2, -100, 14, 2, -8, 2, 2, -112, 2, 1, -7, 12, 2, -128, 2, 2, -126, 2, 1, -9,
    298, 1, -7517, 4, 1, -8383, 1, 1, -8262, 7, 1, 28, 46, 16, 16, 35, 1, 1, 819, 26, 26, 1866, 48,
    48, 96, 1, 1, 2, 1, -10743, 1, 1, -3814, 1, 1, -10727, 3, 3, 1, 6, 1, -10780, 1, 1, -10749, 1,
    1, -10783, 1, 1, -10782, 2, 1, 1, 3, 1, 1, 9, 2, -10815, 2, 50, 1, 107, 2, 1, 7, 1, 1, 31054,
    23, 1, 64, 14, 1, 162, 7, 1, 16, 31, 1, 71, 2, 1, 4, 1, -35332, 1, 5, 1, 13, 1, 1, 2, 1, -42280,
    3, 2, 1, 6, 10, 1, 20, 1, -42308, 1, 1, -42319, 1, 1, -42315, 1, 1, -42305, 1, 1, -42308, 2, 1,
    -42258, 1, 1, -42282, 1, 1, -42261, 1, 1, 928, 1, 8, 1, 16, 1, -48, 1, 1, -42307, 1, 1, -35384,
    1, 2, 1, 4, 1, -42343, 1, 8, 1, 16, 1, -42561, 25, 1, 1, 22316, 26, 32, 1247, 40, 40, 176, 36,
    40, 192, 11, 39, 12, 15, 39, 16, 7, 39, 8, 2, 39, 1772, 51, 64, 208, 22, 32, 2896, 32, 32,
    21920, 32, 32, 96, 25, 27, 31328, 34, 34]

/-- Characters whose upper case is several characters, or one whose lower case
is another. -/
def upperExceptions : List (Nat × List Nat) :=
  [(0xB5, [0x39C]), (0xDF, [0x53, 0x53]), (0x131, [0x49]), (0x149, [0x2BC, 0x4E]), (0x17F, [0x53]),
   (0x1C5, [0x1C4]), (0x1C8, [0x1C7]), (0x1CB, [0x1CA]), (0x1F0, [0x4A, 0x30C]), (0x1F2, [0x1F1]),
   (0x345, [0x399]), (0x390, [0x399, 0x308, 0x301]), (0x3B0, [0x3A5, 0x308, 0x301]),
   (0x3C2, [0x3A3]), (0x3D0, [0x392]), (0x3D1, [0x398]), (0x3D5, [0x3A6]), (0x3D6, [0x3A0]),
   (0x3F0, [0x39A]), (0x3F1, [0x3A1]), (0x3F5, [0x395]), (0x587, [0x535, 0x552]), (0x1C80, [0x412]),
   (0x1C81, [0x414]), (0x1C82, [0x41E]), (0x1C83, [0x421]), (0x1C84, [0x422]), (0x1C85, [0x422]),
   (0x1C86, [0x42A]), (0x1C87, [0x462]), (0x1C88, [0xA64A]), (0x1E96, [0x48, 0x331]),
   (0x1E97, [0x54, 0x308]), (0x1E98, [0x57, 0x30A]), (0x1E99, [0x59, 0x30A]),
   (0x1E9A, [0x41, 0x2BE]), (0x1E9B, [0x1E60]), (0x1F50, [0x3A5, 0x313]),
   (0x1F52, [0x3A5, 0x313, 0x300]), (0x1F54, [0x3A5, 0x313, 0x301]),
   (0x1F56, [0x3A5, 0x313, 0x342]), (0x1FB2, [0x1FBA, 0x399]), (0x1FB3, [0x391, 0x399]),
   (0x1FB4, [0x386, 0x399]), (0x1FB6, [0x391, 0x342]), (0x1FB7, [0x391, 0x342, 0x399]),
   (0x1FBC, [0x391, 0x399]), (0x1FBE, [0x399]), (0x1FC2, [0x1FCA, 0x399]), (0x1FC3, [0x397, 0x399]),
   (0x1FC4, [0x389, 0x399]), (0x1FC6, [0x397, 0x342]), (0x1FC7, [0x397, 0x342, 0x399]),
   (0x1FCC, [0x397, 0x399]), (0x1FD2, [0x399, 0x308, 0x300]), (0x1FD3, [0x399, 0x308, 0x301]),
   (0x1FD6, [0x399, 0x342]), (0x1FD7, [0x399, 0x308, 0x342]), (0x1FE2, [0x3A5, 0x308, 0x300]),
   (0x1FE3, [0x3A5, 0x308, 0x301]), (0x1FE4, [0x3A1, 0x313]), (0x1FE6, [0x3A5, 0x342]),
   (0x1FE7, [0x3A5, 0x308, 0x342]), (0x1FF2, [0x1FFA, 0x399]), (0x1FF3, [0x3A9, 0x399]),
   (0x1FF4, [0x38F, 0x399]), (0x1FF6, [0x3A9, 0x342]), (0x1FF7, [0x3A9, 0x342, 0x399]),
   (0x1FFC, [0x3A9, 0x399]), (0xFB00, [0x46, 0x46]), (0xFB01, [0x46, 0x49]), (0xFB02, [0x46, 0x4C]),
   (0xFB03, [0x46, 0x46, 0x49]), (0xFB04, [0x46, 0x46, 0x4C]), (0xFB05, [0x53, 0x54]),
   (0xFB06, [0x53, 0x54]), (0xFB13, [0x544, 0x546]), (0xFB14, [0x544, 0x535]),
   (0xFB15, [0x544, 0x53B]), (0xFB16, [0x54E, 0x546]), (0xFB17, [0x544, 0x53D])]

/-- Vowels with an iota below them, which becomes a capital behind them. -/
def upperWithIota? (code : Nat) : Option (List Nat) :=
  let vowel (first : Nat) := some [first + code % 8, 0x399]
  match code / 16 with
  | 0x1F8 => vowel 0x1F08
  | 0x1F9 => vowel 0x1F28
  | 0x1FA => vowel 0x1F68
  | _ => none

def lowerChar (c : Char) : List Char :=
  if c.toNat = 0x130 then ['i', Char.ofNat 0x307]
  else [((caseRuns.findSome? (·.lower? c.toNat)).map Char.ofNat).getD c]

def upperChar (c : Char) : List Char :=
  match (upperExceptions.lookup c.toNat).or (upperWithIota? c.toNat) with
  | some codes => codes.map Char.ofNat
  | none => [((caseRuns.findSome? (·.upper? c.toNat)).map Char.ofNat).getD c]

/-- Characters that have case: upper, lower or title case letters and the
like. -/
def casedRanges : Ranges :=
  .ofRuns [65, 26, 6, 26, 47, 1, 10, 1, 4, 1, 5, 23, 1, 31, 1, 195, 1, 4, 4, 208, 2, 35, 7, 2, 30,
    5, 96, 1, 42, 4, 2, 2, 2, 4, 1, 1, 6, 1, 1, 3, 1, 1, 1, 20, 1, 83, 1, 139, 8, 166, 1, 38, 9, 41,
    2839, 38, 1, 1, 5, 1, 2, 43, 1, 4, 672, 86, 2, 6, 2178, 11, 5, 43, 2, 3, 64, 192, 64, 278, 2, 6,
    2, 38, 2, 6, 2, 8, 1, 1, 1, 1, 1, 1, 1, 31, 2, 53, 1, 7, 1, 1, 3, 3, 1, 7, 3, 4, 2, 6, 4, 13, 5,
    3, 1, 7, 116, 1, 13, 1, 16, 13, 101, 1, 4, 1, 2, 10, 1, 1, 3, 5, 6, 1, 1, 1, 1, 1, 1, 4, 1, 6,
    4, 1, 2, 4, 5, 5, 4, 1, 17, 32, 3, 2, 817, 52, 1814, 229, 6, 4, 3, 2, 12, 38, 1, 1, 5, 1, 30994,
    46, 18, 30, 132, 102, 3, 4, 1, 77, 20, 6, 1, 3, 821, 43, 1, 14, 6, 80, 20288, 7, 12, 5, 1033,
    26, 6, 26, 1189, 80, 96, 36, 4, 36, 116, 11, 1, 15, 1, 7, 1, 2, 1, 11, 1, 15, 1, 7, 1, 2, 451,
    1, 2, 3, 1, 42, 1, 9, 1221, 51, 13, 51, 93, 22, 10, 22, 2842, 64, 21856, 64, 32, 25, 2, 25,
    25900, 85, 1, 71, 1, 2, 2, 1, 2, 2, 2, 4, 1, 12, 1, 1, 1, 7, 1, 65, 1, 4, 2, 8, 1, 7, 1, 28, 1,
    4, 1, 5, 1, 1, 3, 7, 1, 340, 2, 25, 1, 25, 1, 31, 1, 25, 1, 31, 1, 25, 1, 31, 1, 25, 1, 31, 1,
    25, 1, 8, 1844, 10, 1, 20, 6, 6, 261, 62, 2194, 68, 2028, 26, 6, 26, 6, 26]

/-- Marks with which a letter counts as another one. -/
def caseMarkRanges : Ranges :=
  .ofRuns [2494, 1, 24, 1, 358, 1, 24, 1, 102, 1, 24, 1, 232, 1, 1, 1, 4, 2, 1, 2, 9, 2, 103, 1,
    24, 1, 119, 1, 15, 1, 2357, 1, 30, 1, 1024, 1, 5, 1, 1, 1, 5, 2, 101, 1, 71, 2, 5178, 2, 31011,
    1, 108, 1, 26623, 1, 116, 1, 264, 1, 14, 1, 9, 1, 96, 1, 9, 1, 2, 1, 1, 3, 5, 1, 224, 1, 12, 1,
    241, 1, 262, 1, 633, 1, 12, 1, 1539, 1, 20654, 2, 24947, 2, 6, 6]

/-- Signs and letters other than marks that leave the case of a word open. -/
def caselessRanges : Ranges :=
  .ofRuns [39, 1, 6, 1, 11, 1, 35, 1, 1, 1, 71, 1, 4, 1, 1, 1, 4, 1, 2, 2, 503, 80, 116, 2, 4, 1,
    9, 2, 1, 1, 465, 1, 5, 1, 148, 1, 11, 6, 22, 1, 35, 1, 156, 1, 7, 2, 40, 1, 228, 2, 4, 1, 31,
    1, 9, 1, 3, 1, 95, 1, 7, 2, 55, 1, 24, 1, 142, 1, 1236, 1, 127, 1, 565, 1, 1754, 1, 54, 1, 52,
    1, 611, 1, 464, 6, 174, 63, 13, 1, 34, 37, 509, 1, 1, 3, 11, 3, 13, 3, 13, 3, 13, 2, 12, 1, 1,
    3, 8, 2, 10, 1, 2, 1, 2, 5, 49, 5, 1, 10, 1, 1, 13, 1, 16, 13, 3039, 2, 241, 1, 191, 1, 469, 1,
    43, 5, 5, 1, 95, 4, 93, 3, 28438, 1, 1250, 6, 270, 1, 114, 1, 28, 2, 98, 34, 78, 1, 23, 3, 102,
    4, 3, 2, 469, 1, 22, 1, 137, 1, 108, 1, 21, 2, 102, 5, 9, 3, 20550, 17, 592, 1, 62, 1, 2, 1,
    169, 1, 7, 1, 6, 1, 11, 1, 35, 1, 1, 1, 47, 1, 114, 1, 21, 3, 1924, 6, 1, 42, 1, 9, 1427, 1,
    32, 1, 341, 1, 503, 1, 15, 1, 3339, 1, 5718, 16, 14080, 4, 508, 3, 40, 2, 550, 13, 64, 2, 1, 1,
    14, 2, 16380, 4, 1, 7, 1, 2, 3233, 4, 5327, 8, 3765, 62, 201, 7, 941, 1, 531, 1, 587, 1,
    792245, 1]

/-- The search for a neighbouring cased letter passes over the character. -/
def isCaseIgnorable (c : Char) : Bool :=
  caselessRanges.covers c || Cluster.extendRanges.covers c && !caseMarkRanges.covers c

/-- The first character that is not passed over has case. -/
def meetsCased (cs : List Char) : Bool :=
  match cs.find? fun c => !isCaseIgnorable c with
  | some c => casedRanges.covers c
  | none => false

/-- Lower case of the characters that follow `before`, which is kept in
reverse.  A capital sigma after a cased letter and before none is final. -/
def lowerAfter (before : List Char) : List Char → List Char
  | [] => []
  | c :: rest =>
      if c = 'Σ' then
        (if meetsCased before && !meetsCased rest then 'ς' else 'σ')
          :: lowerAfter (c :: before) rest
      else
        lowerChar c ++ lowerAfter (c :: before) rest

def lowercase (s : String) : String :=
  String.ofList (lowerAfter [] s.toList)

def uppercase (s : String) : String :=
  String.ofList (s.toList.flatMap upperChar)

end TrackerQuery.Text

/-!
# Integers as decimal text

Readers for ASCII decimal integers with an optional sign, within the ranges of
32 and 64 bit words, and arithmetic within a word.
-/

namespace TrackerQuery.Decimal

def isDigit (c : Char) : Bool :=
  '0' ≤ c && c ≤ '9'

def digitValue (c : Char) : Nat :=
  c.toNat - '0'.toNat

/-- The number that the digits after `value` continue. -/
def extend (value : Nat) (digits : List Char) : Nat :=
  digits.foldl (fun n c => 10 * n + digitValue c) value

/-- The value of one or more decimal digits. -/
def natOfDigits? (cs : List Char) : Option Nat :=
  if !cs.isEmpty && cs.all isDigit then some (extend 0 cs) else none

/-- An integer with an optional sign. -/
def int? (cs : List Char) : Option Int :=
  match cs with
  | '-' :: digits => (natOfDigits? digits).map fun n : Nat => -(n : Int)
  | '+' :: digits => (natOfDigits? digits).map fun n : Nat => (n : Int)
  | digits => (natOfDigits? digits).map fun n : Nat => (n : Int)

/-- An integer of at least `low` and below `high`. -/
def boundedInt? (low high : Int) (text : String) : Option Int :=
  (int? text.toList).filter fun n => low ≤ n ∧ n < high

def int32? : String → Option Int :=
  boundedInt? (-0x80000000) 0x80000000

/-- The least integer of 64 bits, the only one whose negation has more. -/
def least64 : Int :=
  -0x8000000000000000

def int64? : String → Option Int :=
  boundedInt? least64 0x8000000000000000

/-- A natural number of 32 bits; a plus sign may precede it. -/
def nat32? (text : String) : Option Nat :=
  let digits := match text.toList with
    | '+' :: digits => digits
    | digits => digits
  (natOfDigits? digits).filter (· < 0x100000000)

/-- The signed 32-bit word with the same low bits. -/
def wrap32 (n : Int) : Int :=
  n.bmod 0x100000000

/-- The result of an operation does not fit into its word, which ends the
program. -/
structure Overflow where
  deriving DecidableEq, Repr, Inhabited

/-- A signed word of 32 bits holds the number. -/
def Fits32 (n : Int) : Prop :=
  -0x80000000 ≤ n ∧ n < 0x80000000

instance instDecidableFits32 (n : Int) : Decidable (Fits32 n) :=
  inferInstanceAs (Decidable (_ ∧ _))

/-- The result of an operation on signed words of 32 bits. -/
def checked32 (n : Int) : Except Overflow Int :=
  if Fits32 n then .ok n else .error {}

/-- At least `width` digits, filled up with zeros. -/
def padded (width n : Nat) : String :=
  let digits := toString n
  String.ofList (List.replicate (width - digits.length) '0') ++ digits

end TrackerQuery.Decimal

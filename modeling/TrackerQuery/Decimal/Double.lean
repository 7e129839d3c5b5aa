/-!
# The layout of a double

A double is a word of 64 bits: a sign, an exponent field of 11 bits and the 52
low bits of the mantissa, whose leading bit is left out.
-/

namespace TrackerQuery.Decimal

/-- The leading bit of a normal mantissa, and the unit of the exponent field. -/
def leadingBit : Nat :=
  0x10000000000000

/-- The number of values of the exponent field. -/
def exponentRange : Nat :=
  0x800

def signBit : Nat :=
  0x8000000000000000

/-- The bits of positive infinity. -/
def infinity : Nat :=
  0x7FF0000000000000

end TrackerQuery.Decimal

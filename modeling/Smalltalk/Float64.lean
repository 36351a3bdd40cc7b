namespace Smalltalk

/-! Floating-point numbers are kept as the sixty-four bits of their binary
representation: a sign, eleven bits of exponent and fifty-two of fraction. -/

namespace Float64

/-- The bits of an integer, rounded to the nearest number if need be. -/
def ofInt (n : Int) : UInt64 := (Float.ofInt n).toBits

/-- An operation on numbers as an operation on their bits. -/
def lift (operation : Float → Float → Float) (a b : UInt64) : UInt64 :=
  (operation (Float.ofBits a) (Float.ofBits b)).toBits

/-- Whether the bits stand for zero of either sign. -/
def isZero (bits : UInt64) : Bool := bits.toNat % 1 <<< 63 = 0

/-- The exponent field. -/
def exponent (bits : UInt64) : Nat := bits.toNat >>> 52 % 1 <<< 11

/-- The fraction field. -/
def fraction (bits : UInt64) : Nat := bits.toNat % 1 <<< 52

def isNegative (bits : UInt64) : Bool := bits.toNat >>> 63 = 1

/-- Whether the bits stand for no number. -/
def isNaN (bits : UInt64) : Bool := exponent bits = 2047 ∧ fraction bits ≠ 0

/-- The integer part of the magnitude: the significand shifted by what the
exponent says about its last bit. -/
def integerPart (bits : UInt64) : Nat :=
  let significand := if exponent bits = 0 then fraction bits else fraction bits + 1 <<< 52
  if exponent bits < 1075 then significand >>> (1075 - exponent bits)
  else significand <<< (exponent bits - 1075)

/-- The number rounded toward zero; infinities and what is no number have no
integer. -/
def truncate? (bits : UInt64) : Option Int :=
  if exponent bits = 2047 then none
  else some (if isNegative bits then -(integerPart bits) else integerPart bits)

example : truncate? 0x4008000000000000 = some 3 := by decide
example : truncate? 0xBFF8000000000000 = some (-1) := by decide
example : truncate? 0x7FF0000000000000 = none := by decide

end Float64

end Smalltalk

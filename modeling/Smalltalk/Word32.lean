namespace Smalltalk

/-! Signed words of 32 bits. Their products, and what a shift moves out of a word, are cut off
without notice. Operations without a meaning on words end the program: a division by zero, a
quotient that no word holds, and a shift by as many bits as a word has. -/

/-- Why an operation on words ends the program. -/
inductive WordFault where
  | divisionByZero
  | overflow
  | shiftTooFar
deriving DecidableEq, Repr

namespace Word32

/-- Whether a division has a quotient and a remainder. The least word divided by minus one
has neither. -/
def divides (a b : Int32) : Except WordFault Unit :=
  if b = 0 then .error .divisionByZero
  else if a = .minValue ∧ b = -1 then .error .overflow
  else .ok ()

/-- The quotient rounded toward zero. -/
def quotient (a b : Int32) : Except WordFault Int32 := do
  divides a b
  return a / b

/-- The remainder that goes with the quotient; it has the sign of the dividend. -/
def remainder (a b : Int32) : Except WordFault Int32 := do
  divides a b
  return a % b

def shiftLeft (word : Int32) (count : Nat) : Except WordFault Int32 :=
  if count < 32 then .ok (.ofBitVec (word.toBitVec <<< count)) else .error .shiftTooFar

/-- A shift to the right fills up with the sign. -/
def shiftRight (word : Int32) (count : Nat) : Except WordFault Int32 :=
  if count < 32 then .ok (.ofBitVec (word.toBitVec.sshiftRight count)) else .error .shiftTooFar

end Word32

end Smalltalk

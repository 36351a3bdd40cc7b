namespace Smalltalk

/-! Every object carries a four-bit format code that says what its body holds:
pointers below five, raw words up to seven, bytes up to eleven and compiled
methods from twelve on. Byte and method formats keep in their low two bits how
many bytes of the last word are unused. -/

namespace Format

def empty : Nat := 0
def fixed : Nat := 1
def indexable : Nat := 2
def fixedIndexable : Nat := 3
def weak : Nat := 4
def words : Nat := 6
def bytes : Nat := 8
def method : Nat := 12

def isPointers (format : Nat) : Bool := format < 5

def isWords (format : Nat) : Bool := 5 ≤ format ∧ format < 8

def isBytes (format : Nat) : Bool := 8 ≤ format ∧ format < 12

def isMethod (format : Nat) : Bool := 12 ≤ format

/-- The format `base` with the number of unused bytes that `length` bytes leave
in their last word. -/
def withPadding (base length : Nat) : Nat := base ||| ((4 - length % 4) &&& 3)

example : withPadding bytes 4 = 8 := by decide
example : withPadding bytes 5 = 11 := by decide
example : withPadding method 2 = 14 := by decide

/-- The four kinds of body cover all format codes. -/
theorem exhaustive (format : Nat) :
    isPointers format ∨ isWords format ∨ isBytes format ∨ isMethod format := by
  simp [isPointers, isWords, isBytes, isMethod]
  omega

end Format

end Smalltalk

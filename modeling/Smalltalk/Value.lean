import Smalltalk.SmallInt

namespace Smalltalk

/-! A value is what a field, a variable or a stack slot holds: either a small
integer or a reference to a heap object. On the outside it is one tagged 32-bit
word, whose low bit tells the two apart. -/

/-- A small integer, or a reference to the object in a slot of the heap. -/
inductive Value where
  | small (n : SmallInt)
  | object (slot : Nat)
deriving DecidableEq, Inhabited, Repr

namespace Value

/-- The small integer zero. In places that hold only objects it also marks what
is missing. -/
def zero : Value := .small .zero

/-- The value of an integer that is expected to be small; one that is not
becomes zero. -/
def ofInt (n : Int) : Value := ((SmallInt.ofInt? n).map small).getD zero

/-- The value of an integer, if it is small. -/
def ofInt? (n : Int) : Option Value := (SmallInt.ofInt? n).map small

/-- The value of an integer that is first cut to 32 bits. -/
def ofWrapped (n : Int) : Value := ofInt (n.bmod 4294967296)

/-- The value of a word read as a signed number. -/
def ofSigned (word : UInt32) : Value := ofInt word.toInt32.toInt

def isSmall : Value → Bool
  | small _ => true
  | object _ => false

def isObject : Value → Bool
  | small _ => false
  | object _ => true

/-- The integer that a small value stands for. -/
def int? : Value → Option Int
  | small n => some n.val
  | object _ => none

/-- The integer, when it is small and not negative. -/
def nat? : Value → Option Nat
  | small n => if 0 ≤ n.val then some n.val.toNat else none
  | object _ => none

/-- The slot that a reference names. -/
def slot? : Value → Option Nat
  | small _ => none
  | object slot => some slot

/-- Redirect a reference; small integers stay as they are. -/
def rename (redirect : Nat → Nat) : Value → Value
  | small n => small n
  | object slot => object (redirect slot)

@[simp] theorem rename_small (redirect : Nat → Nat) (n : SmallInt) :
    (small n).rename redirect = small n := rfl

@[simp] theorem rename_object (redirect : Nat → Nat) (slot : Nat) :
    (object slot).rename redirect = object (redirect slot) := rfl

@[simp] theorem isSmall_eq_false_iff {value : Value} :
    value.isSmall = false ↔ value.isObject = true := by
  cases value <;> simp [isSmall, isObject]

@[simp] theorem int?_ofInt_of_small (n : SmallInt) : (ofInt n.val).int? = some n.val := by
  simp [ofInt, int?]

/-- Nothing is cut from a small integer. -/
theorem ofWrapped_eq_ofInt {n : Int} (lower : SmallInt.minimum ≤ n)
    (upper : n ≤ SmallInt.maximum) : ofWrapped n = ofInt n := by
  simp only [SmallInt.minimum, SmallInt.maximum] at lower upper
  rw [ofWrapped, Int.bmod_eq_of_le_mul_two] <;> omega

/-! ## Tagged words -/

/-- The tagged word of a value: a small integer shifted up with the low bit
set, or a slot shifted up with the low bit clear. -/
def toWord : Value → UInt32
  | small n => UInt32.ofNat ((2 * n.val + 1) % 4294967296).toNat
  | object slot => UInt32.ofNat (2 * slot)

/-- The value that a tagged word stands for. -/
def ofWord (word : UInt32) : Value :=
  let payload := word.toNat / 2
  have bounded : payload < 2147483648 := by
    have := word.toNat_lt
    omega
  if word.toNat % 2 = 0 then
    object payload
  else if small? : payload < 1073741824 then
    small ⟨payload, by simp only [SmallInt.minimum]; omega,
      by simp only [SmallInt.maximum]; omega⟩
  else
    small ⟨payload - 2147483648, by simp only [SmallInt.minimum]; omega,
      by simp only [SmallInt.maximum]; omega⟩

example : (ofInt (-5)).toWord = 4294967287 := by decide
example : ofWord 4294967287 = ofInt (-5) := by decide
example : ofWord 14 = object 7 := by decide

/-- How a value is named in messages. -/
def describe : Value → String
  | small n => s!"Small({n.val})"
  | object slot => s!"Oop(#{slot})"

end Value

end Smalltalk

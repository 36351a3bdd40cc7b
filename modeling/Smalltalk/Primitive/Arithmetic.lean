import Smalltalk.Bytecode
import Smalltalk.Float64
import Smalltalk.Primitive.Basic

namespace Smalltalk

/-! Arithmetic and comparison of small integers and of floats. The messages that
have an instruction of their own and the primitives of the same name share their
operations. -/

/-- Operations on small integers that may leave their range. -/
inductive IntegerOperation where
  | add
  | subtract
  | multiply
  | divide
  | modulo
  | div
  | quo
  | bitAnd
  | bitOr
  | bitXor
  | bitShift
deriving DecidableEq

/-- The six comparisons. -/
inductive Comparison where
  | lessThan
  | greaterThan
  | lessOrEqual
  | greaterOrEqual
  | equal
  | notEqual
deriving DecidableEq

/-- Operations on floats. -/
inductive FloatOperation where
  | add
  | subtract
  | multiply
  | divide
deriving DecidableEq

namespace IntegerOperation

/-- The exact result, if it is a small integer. -/
def apply : IntegerOperation → Int → Int → Option Int
  | add => Checked.add
  | subtract => Checked.sub
  | multiply => Checked.mul
  | divide => Checked.exactQuotient
  | modulo => Checked.mod
  | div => Checked.div
  | quo => Checked.quo
  | bitAnd => Checked.bitAnd
  | bitOr => Checked.bitOr
  | bitXor => Checked.bitXor
  | bitShift => Checked.shift

/-- The result as a value. -/
def value? (operation : IntegerOperation) (a b : Int) : Option Value :=
  (operation.apply a b).bind Value.ofInt?

end IntegerOperation

namespace Comparison

def onIntegers : Comparison → Int → Int → Bool
  | lessThan, a, b => a < b
  | greaterThan, a, b => b < a
  | lessOrEqual, a, b => a ≤ b
  | greaterOrEqual, a, b => b ≤ a
  | equal, a, b => a = b
  | notEqual, a, b => a ≠ b

def onFloats (comparison : Comparison) (a b : UInt64) : Bool :=
  let a := Float.ofBits a
  let b := Float.ofBits b
  match comparison with
  | lessThan => a < b
  | greaterThan => b < a
  | lessOrEqual => a ≤ b
  | greaterOrEqual => b ≤ a
  | equal => a == b
  | notEqual => a != b

end Comparison

namespace FloatOperation

def apply : FloatOperation → UInt64 → UInt64 → UInt64
  | add => Float64.lift (· + ·)
  | subtract => Float64.lift (· - ·)
  | multiply => Float64.lift (· * ·)
  | divide => Float64.lift (· / ·)

end FloatOperation

/-- What an arithmetic message does with two small integers. -/
inductive ArithmeticMeaning where
  | operation (operation : IntegerOperation)
  | comparison (comparison : Comparison)
  | makePoint
deriving DecidableEq

/-- The operation behind an arithmetic message. -/
def ArithmeticMessage.meaning : ArithmeticMessage → ArithmeticMeaning
  | add => .operation .add
  | subtract => .operation .subtract
  | lessThan => .comparison .lessThan
  | greaterThan => .comparison .greaterThan
  | lessOrEqual => .comparison .lessOrEqual
  | greaterOrEqual => .comparison .greaterOrEqual
  | equal => .comparison .equal
  | notEqual => .comparison .notEqual
  | multiply => .operation .multiply
  | divide => .operation .divide
  | modulo => .operation .modulo
  | makePoint => .makePoint
  | bitShift => .operation .bitShift
  | div => .operation .div
  | bitAnd => .operation .bitAnd
  | bitOr => .operation .bitOr

namespace Reply

open Run

/-! ## Small integers -/

/-- The two small integers that a message with one argument has as receiver and
argument. -/
def integerOperands (count : Nat) : Run (Option (Int × Int)) := do
  let receiver ← receiverOf count
  let argument ← argument count 0
  return do return (← receiver.int?, ← argument.int?)

def integerOperation (operation : IntegerOperation) (count : Nat) : Run Bool := do
  if count ≠ 1 then return false
  match ← integerOperands count with
  | none => return false
  | some (a, b) =>
    match operation.value? a b with
    | none => return false
    | some result => succeed count result

def integerComparison (comparison : Comparison) (count : Nat) : Run Bool := do
  if count ≠ 1 then return false
  match ← integerOperands count with
  | none => return false
  | some (a, b) => succeed count (← booleanObject (comparison.onIntegers a b))

/-- A point of two small integers. -/
def pointOf (count : Nat) : Run Bool := do
  if count ≠ 1 then return false
  let x ← receiverOf count
  let y ← argument count 0
  if x.isObject ∨ y.isObject then return false
  succeed count (← makePoint x y)

/-! ## Floats -/

/-- The number of a float or of a small integer. -/
def floatOf (value : Value) : Run (Option UInt64) := do
  match value with
  | .small n => return some (Float64.ofInt n.val)
  | .object _ =>
    let machine ← get
    match machine.heap.get? value with
    | none => return none
    | some object =>
      return if object.species = machine.registers.specials.floatClass then object.body.float?
        else none

/-- A new float. -/
def newFloat (bits : UInt64) : Run Value := do
  register
    { species := (← getRegisters).specials.floatClass
      format := Format.words
      body := .float bits }

/-- The numbers of a float and of the number that a message gives it as
argument. -/
def floatOperands (count : Nat) : Run (Option (UInt64 × UInt64)) := do
  let receiver ← receiverOf count
  if receiver.isSmall then return none
  let a ← floatOf receiver
  let b ← floatOf (← argument count 0)
  return do return (← a, ← b)

def floatOperation (operation : FloatOperation) (count : Nat) : Run Bool := do
  if count ≠ 1 then return false
  match ← floatOperands count with
  | none => return false
  | some (a, b) => succeed count (← newFloat (operation.apply a b))

/-- A division by zero of either sign fails. -/
def floatDivision (count : Nat) : Run Bool := do
  if count ≠ 1 then return false
  if (← floatOf (← argument count 0)).any Float64.isZero then return false
  floatOperation .divide count

def floatComparison (comparison : Comparison) (count : Nat) : Run Bool := do
  if count ≠ 1 then return false
  match ← floatOperands count with
  | none => return false
  | some (a, b) => succeed count (← booleanObject (comparison.onFloats a b))

def asFloat (count : Nat) : Run Bool := do
  match (← receiverOf count).int? with
  | none => return false
  | some n => succeed count (← newFloat (Float64.ofInt n))

/-- The integer part of a float, if it is a small integer. -/
def truncated (count : Nat) : Run Bool := do
  let receiver ← receiverOf count
  if receiver.isSmall then return false
  match ((← floatOf receiver).bind Float64.truncate?).bind Value.ofInt? with
  | none => return false
  | some result => succeed count result

end Reply

end Smalltalk

import Smalltalk.Machine.Stack

namespace Smalltalk

/-! A primitive is the reply of the machine itself to a message. It finds the
receiver and the arguments of its message on the stack. When it succeeds it
answers true and has usually put a result in their place; when it fails it
answers false, and the method of the message runs instead. -/

namespace Run

/-- The receiver of a message with `count` arguments. -/
def receiverOf (count : Nat) : Run Value := operand count

/-- An argument of a message with `count` arguments, the first one being
number zero. -/
def argument (count index : Nat) : Run Value :=
  if index < count then operand (count - 1 - index) else throw .undefinedOperand

/-- Put the result of a message in place of its receiver and arguments. -/
def succeed (count : Nat) (result : Value) : Run Bool := do
  replace (count + 1) result
  return true

/-- The object for a truth value. -/
def booleanObject (value : Bool) : Run Value :=
  return (← getRegisters).specials.boolean value

/-- A number below 2^32: a small integer or a LargePositiveInteger of at most
four bytes. -/
def wordOf (value : Value) : Run (Option UInt32) := do
  match value with
  | .small n => return if 0 ≤ n.val then some (UInt32.ofNat n.val.toNat) else none
  | .object _ =>
    let machine ← get
    match machine.heap.get? value with
    | none => return none
    | some object =>
      if object.species ≠ machine.registers.specials.largePositiveIntegerClass then
        return none
      return (object.bytes?.filter (·.size ≤ 4)).map fun bytes =>
        bytes.foldr (fun byte word => word <<< (8 : UInt32) ||| byte.toUInt32) 0

/-- The four bytes of a word, the lowest first. -/
def littleEndian (word : UInt32) : Array UInt8 :=
  #[word.toUInt8, (word >>> (8 : UInt32)).toUInt8, (word >>> (16 : UInt32)).toUInt8,
    (word >>> (24 : UInt32)).toUInt8]

/-- A number below 2^32 as an object: a small integer if it is one, else a new
LargePositiveInteger. -/
def wordObject (word : UInt32) : Run Value := do
  match Value.ofInt? word.toNat with
  | some value => return value
  | none =>
    register
      { species := (← getRegisters).specials.largePositiveIntegerClass
        format := Format.bytes
        body := .bytes (littleEndian word) }

/-- A new point. -/
def makePoint (x y : Value) : Run Value := do
  register
    { species := (← getRegisters).specials.pointClass
      format := Format.fixed
      body := .pointers #[x, y] }

end Run

end Smalltalk

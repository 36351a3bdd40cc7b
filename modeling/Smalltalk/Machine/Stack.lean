import Smalltalk.Machine.Basic

namespace Smalltalk

/-! The operand stack lies in the active context, above its temporaries. -/

namespace Run

/-- The operand that lies `depth` below the top. -/
def operand (depth : Nat) : Run Value := do
  let registers ← getRegisters
  if depth ≤ registers.sp then
    fetch registers.activeContext (registers.sp - depth)
  else
    fail (.memory (.indexOutOfBounds registers.activeContext 0))

def top : Run Value := operand 0

def push (value : Value) : Run Unit := do
  modifyRegisters fun registers => { registers with sp := registers.sp + 1 }
  let registers ← getRegisters
  store registers.activeContext registers.sp value

/-- Drop operands. -/
def drop (count : Nat) : Run Unit :=
  modifyRegisters fun registers => { registers with sp := registers.sp - count }

def pop : Run Value := do
  let value ← top
  if (← getRegisters).sp = 0 then throw .undefinedOperand
  drop 1
  return value

/-- Put a value in place of operands. -/
def replace (count : Nat) (value : Value) : Run Unit := do
  drop count
  push value

/-- Copy the uppermost operands into consecutive fields of an object, the
deepest one first. -/
def copyOperands (target : Value) : (count index : Nat) → Run Unit
  | 0, _ => return
  | count + 1, index => do
    store target index (← operand count)
    copyOperands target count (index + 1)

end Run

end Smalltalk

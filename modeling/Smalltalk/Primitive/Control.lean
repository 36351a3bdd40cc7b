import Smalltalk.Machine.Lookup
import Smalltalk.Machine.Scheduling
import Smalltalk.Primitive.Basic

namespace Smalltalk

/-! Blocks, messages whose selector is computed, and processes. -/

namespace Reply

open Run

/-! ## Blocks -/

/-- Make a block of the code that starts after the jump that follows. Its home
context can from now on be referred to by the block. -/
def blockCopy (count : Nat) : Run Bool := do
  if count ≠ 1 then return false
  let context ← operand 1
  let argumentCount ← operand 0
  if argumentCount.isObject ∨ !(← get).isContext context then return false
  let homeContext ← homeOf context
  modifyRegisters fun registers => { registers with reclaimable := 0 }
  let registers ← getRegisters
  let size := (← getHeap).pointerCount homeContext
  let block ← register
    { species := registers.specials.blockContextClass
      format := Format.fixedIndexable
      body := .pointers (Array.replicate size registers.specials.nil) }
  let initialPc ← encodePc registers.method (registers.pc + 2)
  store block BlockField.initialPc initialPc
  store block ContextField.pc initialPc
  store block ContextField.stackPointer .zero
  store block BlockField.argumentCount argumentCount
  store block BlockField.home homeContext
  succeed count block

/-- Evaluate a block that is not being evaluated: move the arguments into its
frame and make it the active context. -/
def blockValue (count : Nat) : Run Bool := do
  let block ← operand count
  if block.isSmall then return false
  if (← classOf block) ≠ (← getRegisters).specials.blockContextClass then return false
  if (← fetchInt block BlockField.argumentCount) ≠ count then return false
  if (← fetch block BlockField.caller) ≠ (← getNil) then return false
  copyOperands block count ContextField.frame
  let initialPc ← fetch block BlockField.initialPc
  store block ContextField.pc initialPc
  store block ContextField.stackPointer (.ofInt count)
  store block BlockField.caller (← getRegisters).activeContext
  drop (count + 1)
  activate block
  return true

/-! ## Computed selectors

Sending is given as a parameter, because a message that is performed may itself
have a primitive that performs one. -/

/-- How a message is sent: its selector, the number of its arguments and the
class in which its method is looked up. -/
abbrev Sender := (selector : Value) → (count : Nat) → (species : Value) → Run Unit

/-- Whether the method that a message would find, if any, takes another number
of arguments. -/
def mismatches (selector : Value) (species : Value) (count : Nat) : Run Bool := do
  match ← lookupMethod selector species with
  | none => return false
  | some entry =>
    match ← readHeap (·.methodHeader? entry.method) with
    | none => return false
    | some header => return header.argumentCount ≠ count

/-- Move `count` slots of a context one place down, from `slot` on. -/
def shiftDown (context : Value) : (count slot : Nat) → Run Unit
  | 0, _ => return
  | count + 1, slot => do
    store context slot (← fetch context (slot + 1))
    shiftDown context count (slot + 1)

/-- Send the first argument, which is a selector, with the other arguments. -/
def perform (send : Sender) (count : Nat) : Run Bool := do
  if count = 0 then return false
  let selector ← argument count 0
  if selector.isSmall then return false
  let rest := count - 1
  let species ← classOf (← receiverOf count)
  if ← mismatches selector species rest then return false
  let registers ← getRegisters
  shiftDown registers.activeContext rest (registers.sp - rest)
  drop 1
  send selector rest species
  return true

/-- Send a selector with the elements of an array as arguments, if the stack has
room for them. -/
def performWithArray (send : Sender) (count : Nat) (selector array species : Value) :
    Run Bool := do
  if selector.isSmall ∨ array.isSmall then return false
  let registers ← getRegisters
  if (← classOf array) ≠ registers.specials.arrayClass then return false
  let arguments := ((← Run.object array).pointers?.getD #[]).toList
  let room := (← getHeap).pointerCount registers.activeContext
  if room ≤ registers.sp - count + arguments.length then return false
  if ← mismatches selector species arguments.length then return false
  drop count
  arguments.forM push
  send selector arguments.length species
  return true

def performWithArguments (send : Sender) (count : Nat) : Run Bool := do
  if count ≠ 2 then return false
  let selector ← argument count 0
  let array ← argument count 1
  let species ← classOf (← receiverOf count)
  performWithArray send count selector array species

/-- The lookup starts in a class that the receiver inherits from. -/
def performInSuperclass (send : Sender) (count : Nat) : Run Bool := do
  if count ≠ 3 then return false
  let selector ← argument count 0
  let array ← argument count 1
  let lookup ← argument count 2
  let species ← classOf (← receiverOf count)
  if lookup.isSmall then return false
  if !(← inheritsFrom lookup ((← getHeap).cells.size + 1) species) then return false
  performWithArray send count selector array lookup

/-! ## Processes -/

/-- Whether an object can be a semaphore: its third field is a small integer. -/
def isSemaphore (heap : Heap) (value : Value) : Bool :=
  ((heap.get? value).bind HeapObject.pointers?).any fun fields =>
    (fields[SemaphoreField.excessSignals]?).any Value.isSmall

/-- Whether an object can be a process: it has the fields of one and a priority
that is a small integer. -/
def isProcess (heap : Heap) (value : Value) : Bool :=
  ((heap.get? value).bind HeapObject.pointers?).any fun fields =>
    ProcessField.myList < fields.size ∧ (fields[ProcessField.priority]?).any Value.isSmall

def signalSemaphore (count : Nat) : Run Bool := do
  let semaphore ← receiverOf count
  if !isSemaphore (← getHeap) semaphore then return false
  signal semaphore
  return true

def waitSemaphore (count : Nat) : Run Bool := do
  let semaphore ← receiverOf count
  if !isSemaphore (← getHeap) semaphore then return false
  wait semaphore
  return true

def resumeProcess (count : Nat) : Run Bool := do
  let process ← receiverOf count
  if !isProcess (← getHeap) process then return false
  resume process
  return true

/-- The active process suspends itself; no other one can be suspended. -/
def suspendProcess (count : Nat) : Run Bool := do
  let process ← receiverOf count
  if process ≠ (← activeProcess) then return false
  replace (count + 1) (← getNil)
  transferTo (← wakeHighestPriority)
  return true

def yieldActive : Run Bool := do
  yieldProcess
  return true

/-- Wait for input for at most the microseconds asked for. -/
def relinquish (count : Nat) : Run Bool := do
  if count ≠ 1 then return false
  match (← argument count 0).nat? with
  | none => return false
  | some _ =>
    modify fun machine => { machine with input := machine.input.takePending.2 }
    drop count
    return true

end Reply

end Smalltalk

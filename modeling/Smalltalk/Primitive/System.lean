import Smalltalk.Machine.Interrupts
import Smalltalk.Primitive.Basic

namespace Smalltalk

/-! Identity, memory, clocks and the control of the caches. -/

namespace Reply

open Run

/-! ## Caches -/

/-- Forget everything that was looked up. -/
def flushCaches : Run Bool := do
  modifyRegisters fun registers =>
    { registers with
      methodCache := registers.methodCache.clear
      atCache := registers.atCache.clear }
  return true

/-- Forget what was found to be the receiver. -/
def flushMethod (count : Nat) : Run Bool := do
  let method ← receiverOf count
  modifyRegisters fun registers =>
    { registers with
      methodCache := registers.methodCache.forgetMethod method
      atCache := registers.atCache.clear }
  return true

/-- Forget what was found for the receiver. -/
def flushSelector (count : Nat) : Run Bool := do
  let selector ← receiverOf count
  modifyRegisters fun registers =>
    { registers with
      methodCache := registers.methodCache.forgetSelector selector
      atCache := registers.atCache.clear }
  return true

/-! ## Identity -/

def identical (count : Nat) : Run Bool := do
  if count ≠ 1 then return false
  let receiver ← receiverOf count
  let argument ← argument count 0
  succeed count (← booleanObject (receiver = argument))

def species (count : Nat) : Run Bool := do
  succeed count (← classOf (← receiverOf count))

/-- The elements of two arrays that a message has as receiver and argument. -/
def arrayOperands (count : Nat) : Run (Option (List Value × List Value)) := do
  let receiver ← receiverOf count
  let argument ← argument count 0
  let arrayClass := (← getRegisters).specials.arrayClass
  let elements (array : Value) : Run (Option (List Value)) := do
    if array.isSmall then return none
    if (← classOf array) ≠ arrayClass then return none
    return some ((← Run.object array).pointers?.getD #[]).toList
  match ← elements receiver with
  | none => return none
  | some sources =>
    match ← elements argument with
    | none => return none
    | some targets => return some (sources, targets)

/-- Exchange the identities of the elements of two arrays, or only give those of
the argument to those of the receiver. -/
def become (twoWay : Bool) (count : Nat) : Run Bool := do
  if count ≠ 1 then return false
  match ← arrayOperands count with
  | none => return false
  | some (sources, targets) =>
    let machine ← get
    match Rooted.become ⟨machine.heap, machine.registers⟩ sources targets twoWay with
    | .error _ => return false
    | .ok after =>
      set { machine with heap := after.heap, registers := after.roots }
      drop count
      return true

def specialObjectsArray (count : Nat) : Run Bool := do
  succeed count (← getRegisters).specials.array

/-! ## Memory -/

/-- A count as a small integer, the greatest one if it is greater. -/
def countValue (n : Nat) : Value := .ofInt (min (n : Int) SmallInt.maximum)

/-- How many more objects can be registered. -/
def slotsLeft (count : Nat) : Run Bool := do
  succeed count (countValue (← getHeap).slotsLeft)

def fullCollection (count : Nat) : Run Bool := do
  collect Rooted.fullCollect
  slotsLeft count

def partialCollection (count : Nat) : Run Bool := do
  collect Rooted.partialCollect
  slotsLeft count

/-! ## Time -/

def millisecondClock (count : Nat) : Run Bool := do
  succeed count (.ofInt (← Run.millisecondClock))

def secondsClock (count : Nat) : Run Bool := do
  succeed count (← wordObject (← get).clock.seconds)

/-- Have a semaphore signalled at a time; nil instead of a semaphore calls that
off. -/
def signalAt (count : Nat) : Run Bool := do
  if count ≠ 2 then return false
  let semaphore ← argument count 0
  match (← argument count 1).int? with
  | none => return false
  | some tick =>
    if semaphore.isSmall then return false
    let specials := (← getRegisters).specials
    store specials.array Special.timerSemaphore semaphore
    let nextWakeup := if semaphore = specials.nil then 0 else tick
    modify fun machine => { machine with timing.nextWakeup := nextWakeup }
    drop count
    return true

def quit : Run Bool := do
  modify fun machine => { machine with hasQuit := true }
  return true

end Reply

end Smalltalk

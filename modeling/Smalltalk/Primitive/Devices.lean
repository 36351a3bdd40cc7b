import Smalltalk.Primitive.Basic

namespace Smalltalk

/-! The screen, the cursor, the mouse and the keyboard. -/

namespace Reply

open Run

/-- The bitmap of a Form whose bits are words. -/
def bitmap? (heap : Heap) (form : Value) : Option Bitmap := do
  let fields ← (heap.get? form).bind HeapObject.pointers?
  let bits ← fields[FormField.bits]?
  let width ← fields[FormField.width]?
  let height ← fields[FormField.height]?
  let depth ← fields[FormField.depth]?
  return {
    words := ← (heap.get? bits).bind HeapObject.words?
    width := ← width.nat?
    height := ← height.nat?
    depth := ← depth.nat? }

/-- The coordinates of a point of small integers. -/
def coordinates? (heap : Heap) (point : Value) : Option (Int × Int) := do
  let fields ← (heap.get? point).bind HeapObject.pointers?
  let x ← fields[PointField.x]?.bind Value.int?
  let y ← fields[PointField.y]?.bind Value.int?
  return (x, y)

/-! ## Screen and cursor -/

/-- Make the receiver's bitmap the shape of the cursor, with the argument's as
its mask. -/
def beCursor (count : Nat) : Run Bool := do
  if 1 < count then return false
  match bitmap? (← getHeap) (← receiverOf count) with
  | none => return false
  | some shape =>
    let setShape (mask : Option (Array UInt32)) : Run Bool := do
      modify fun machine => { machine with screen := machine.screen.setCursor shape.words mask }
      drop count
      return true
    if count = 0 then
      setShape none
    else
      match bitmap? (← getHeap) (← argument count 0) with
      | none => return false
      | some mask => setShape mask.words

def showBitmap (bitmap : Bitmap) : Run Unit :=
  modify fun machine => { machine with screen := machine.screen.update bitmap }

/-- Make the receiver the Form that is shown on the screen. -/
def beDisplay (count : Nat) : Run Bool := do
  let form ← receiverOf count
  match bitmap? (← getHeap) form with
  | none => return false
  | some bitmap =>
    showBitmap bitmap
    store (← getRegisters).specials.array Special.display form
    drop count
    return true

/-- Show the Form of the screen again. -/
def forceDisplay (count : Nat) : Run Bool := do
  let form ← specialObject Special.display
  if let some bitmap := bitmap? (← getHeap) form then showBitmap bitmap
  drop count
  return true

def screenSize (count : Nat) : Run Bool := do
  let screen := (← get).screen
  succeed count (← makePoint (.ofSigned screen.width) (.ofSigned screen.height))

/-! ## Mouse and keyboard -/

def mousePoint (count : Nat) : Run Bool := do
  let snapshot := (← get).input.snapshot
  match Value.ofInt? snapshot.x, Value.ofInt? snapshot.y with
  | some x, some y => succeed count (← makePoint x y)
  | _, _ => return false

/-- Move the mouse to a point. -/
def setMousePoint (count : Nat) : Run Bool := do
  if count ≠ 1 then return false
  match coordinates? (← getHeap) (← argument count 0) with
  | none => return false
  | some (x, y) =>
    modify fun machine => { machine with input := machine.input.receive (.moved x y) }
    drop count
    return true

/-- The buttons, with the modifier keys among them. -/
def mouseButtons (count : Nat) : Run Bool := do
  let snapshot := (← get).input.snapshot
  succeed count (.ofSigned (snapshot.buttons ||| snapshot.modifiers))

/-- The code of a key, or nil. -/
def keyObject (key : Option UInt32) : Run Value := do
  match key with
  | some code => return .ofSigned code
  | none => getNil

def nextKey (count : Nat) : Run Bool := do
  let key : Option UInt32 ← modifyGet fun machine =>
    let (key, input) := machine.input.nextKey
    (key, { machine with input })
  succeed count (← keyObject key)

def peekKey (count : Nat) : Run Bool := do
  succeed count (← keyObject (← get).input.peekKey)

end Reply

end Smalltalk

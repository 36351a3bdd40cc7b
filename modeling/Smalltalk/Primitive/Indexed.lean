import Smalltalk.Bytecode
import Smalltalk.Primitive.Basic

namespace Smalltalk

/-! Access to the elements of objects by index, which counts from one. -/

namespace Reply

open Run

/-- The place, from zero, that an index between one and `size` stands for. -/
def place? (index : Value) (size : Nat) : Option Nat :=
  (index.nat?.filter fun n => 1 ≤ n ∧ n ≤ size).map (· - 1)

/-! ## Elements -/

/-- The indexable part of an object, if its class has indexable instances. When
`chars` is set only bytes count, and they are Characters. -/
def indexedPart (object : Value) (chars : Bool) : Run (Option IndexedPart) := do
  if object.isSmall then return none
  let format ← classFormat (← classOf object)
  if !format.isIndexable then return none
  let part (kind : IndexedKind) (fixed size : Nat) : Option IndexedPart :=
    some { object, kind, fixed, size }
  match (← Run.object object).body with
  | .pointers fields =>
    return if chars then none
      else part .pointers format.fieldCount (fields.size - format.fieldCount)
  | .words words => return if chars then none else part .words 0 words.size
  | .bytes bytes => return part (if chars then .chars else .bytes) 0 bytes.size
  | .method _ _ => return none
  | .float _ => return none

/-- The byte in a slot; an object without bytes gives zero. -/
def byteAt (object : Value) (slot : Nat) : Run UInt8 := do
  match (← Run.object object).bytes? with
  | none => return 0
  | some bytes =>
    match bytes[slot]? with
    | some byte => return byte
    | none => throw .undefinedOperand

/-- The word in a slot; an object without words gives zero. -/
def wordAt (object : Value) (slot : Nat) : Run UInt32 := do
  match (← Run.object object).words? with
  | none => return 0
  | some words =>
    match words[slot]? with
    | some word => return word
    | none => throw .undefinedOperand

/-- The element at a place, from zero, as a value. -/
def readElement (part : IndexedPart) (place : Nat) : Run Value := do
  let slot := part.fixed + place
  match part.kind with
  | .pointers => fetch part.object slot
  | .words => wordObject (← wordAt part.object slot)
  | .bytes => return .ofInt (← byteAt part.object slot).toNat
  | .chars =>
    fetch (← getRegisters).specials.characterTable (← byteAt part.object slot).toNat

/-- Set the byte in a slot; an object without bytes stays as it is. -/
def setByte (object : Value) (slot : Nat) (byte : UInt8) : Run Unit := do
  if let some bytes := (← Run.object object).bytes? then
    if bytes.size ≤ slot then throw .undefinedOperand
  modifyHeap (·.updateBody object (·.mapBytes (·.setIfInBounds slot byte)))

/-- Set the word in a slot; an object without words stays as it is. -/
def setWord (object : Value) (slot : Nat) (word : UInt32) : Run Unit := do
  if let some words := (← Run.object object).words? then
    if words.size ≤ slot then throw .undefinedOperand
  modifyHeap (·.updateBody object (·.mapWords (·.setIfInBounds slot word)))

/-- The number of a Character. -/
def characterCode (value : Value) : Run (Option Int) := do
  if value.isSmall then return none
  if (← classOf value) ≠ (← getRegisters).specials.characterClass then return none
  return (← fetch value CharacterField.value).int?

/-- Set the element at a place, from zero. Answers whether the value can be an
element of that kind. -/
def writeElement (part : IndexedPart) (place : Nat) (value : Value) : Run Bool := do
  let slot := part.fixed + place
  let writeByte (code : Option Int) : Run Bool := do
    match code with
    | none => return false
    | some code =>
      if code < 0 ∨ 255 < code then return false
      setByte part.object slot (UInt8.ofNat code.toNat)
      return true
  match part.kind with
  | .pointers =>
    store part.object slot value
    return true
  | .words =>
    match ← wordOf value with
    | none => return false
    | some word =>
      setWord part.object slot word
      return true
  | .bytes => writeByte value.int?
  | .chars => writeByte (← characterCode value)

/-! ## `at:` and `at:put:` -/

/-- Whether the message being sent is the one at a place among the special
selectors and was looked up in the receiver's own class, so that what it found
may be remembered. -/
def isCacheable (receiver : Value) (message : CommonMessage) : Run Bool := do
  let registers ← getRegisters
  let selector ← fetch registers.specials.specialSelectors (message.index * 2)
  if registers.messageSelector ≠ selector then return false
  if registers.lookupClass ≠ (← classOf receiver) then return false
  return !(← get).isContext receiver

/-- Remember the indexable part of a receiver. -/
def rememberPart (part : IndexedPart) (access : Access) : Run Unit :=
  modify fun machine =>
    let hash := machine.heap.hashOf part.object
    { machine with registers.atCache := machine.registers.atCache.insert part hash access }

/-- The element at an index. -/
def elementAt (chars : Bool) (count : Nat) : Run Bool := do
  if count ≠ 1 then return false
  let receiver ← receiverOf count
  match ← indexedPart receiver chars with
  | none => return false
  | some part =>
    match place? (← argument count 0) part.size with
    | none => return false
    | some place =>
      if ← isCacheable receiver .atIndex then rememberPart part .read
      succeed count (← readElement part place)

/-- Set the element at an index. -/
def setElementAt (chars : Bool) (count : Nat) : Run Bool := do
  if count ≠ 2 then return false
  let receiver ← receiverOf count
  match ← indexedPart receiver chars with
  | none => return false
  | some part =>
    match place? (← argument count 0) part.size with
    | none => return false
    | some place =>
      let value ← argument count 1
      if !(← writeElement part place value) then return false
      if ← isCacheable receiver .atIndexPut then rememberPart part .write
      succeed count value

/-- The part that is remembered for an object. -/
def rememberedPart (object : Value) (access : Access) : Run (Option IndexedPart) := do
  if object.isSmall then return none
  let machine ← get
  return machine.registers.atCache.find? object (machine.heap.hashOf object) access

/-- `at:` without a send, for a receiver that is remembered. -/
def inlineElementAt : Run Bool := do
  match ← rememberedPart (← operand 1) .read with
  | none => return false
  | some part =>
    match place? (← operand 0) part.size with
    | none => return false
    | some place =>
      replace 2 (← readElement part place)
      return true

/-- `at:put:` without a send, for a receiver that is remembered. -/
def inlineSetElementAt : Run Bool := do
  match ← rememberedPart (← operand 2) .write with
  | none => return false
  | some part =>
    match place? (← operand 1) part.size with
    | none => return false
    | some place =>
      let value ← operand 0
      if !(← writeElement part place value) then return false
      replace 3 value
      return true

/-- The number of elements; a method counts its literals as four bytes each. -/
def sizeOf (count : Nat) : Run Bool := do
  let receiver ← receiverOf count
  match ← indexedPart receiver false with
  | some part => succeed count (.ofInt part.size)
  | none =>
    match ((← getHeap).get? receiver).map HeapObject.body with
    | some (.method literals bytecode) =>
      succeed count (.ofInt (literals.size * 4 + bytecode.size : Nat))
    | _ => return false

/-! ## Fields and literals by index -/

/-- The number of literals of a method that has a header. -/
def literalsOf (receiver : Value) : Run (Option Nat) := do
  match (← getHeap).get? receiver with
  | none => return none
  | some object => return object.methodHeader?.map fun _ => object.pointerCount

/-- A value of an object that has `size` of them. -/
def fieldAt (size : Nat) (count : Nat) : Run Bool := do
  match place? (← argument count 0) size with
  | none => return false
  | some place => succeed count (← fetch (← receiverOf count) place)

/-- Set a value of an object that has `size` of them. -/
def setFieldAt (size : Nat) (count : Nat) : Run Bool := do
  match place? (← argument count 0) size with
  | none => return false
  | some place =>
    let value ← argument count 1
    store (← receiverOf count) place value
    succeed count value

def literalAt (count : Nat) : Run Bool := do
  match ← literalsOf (← receiverOf count) with
  | none => return false
  | some size => fieldAt size count

def setLiteralAt (count : Nat) : Run Bool := do
  match ← literalsOf (← receiverOf count) with
  | none => return false
  | some size => setFieldAt size count

def instanceVariableAt (count : Nat) : Run Bool := do
  let receiver ← receiverOf count
  fieldAt ((← getHeap).pointerCount receiver) count

def setInstanceVariableAt (count : Nat) : Run Bool := do
  let receiver ← receiverOf count
  setFieldAt ((← getHeap).pointerCount receiver) count

/-! ## Copying a range -/

/-- Put `count` elements of `source` from place `origin` on in place of those of
`target` from place `start` on. -/
def copyRange {α : Type} (target source : Array α) (start origin count : Nat) : Array α :=
  target.extract 0 start ++ source.extract origin (origin + count)
    ++ target.extract (start + count) target.size

@[simp] theorem size_copyRange {α : Type} {target source : Array α} {start origin count : Nat}
    (inTarget : start + count ≤ target.size) (inSource : origin + count ≤ source.size) :
    (copyRange target source start origin count).size = target.size := by
  simp [copyRange]
  omega

/-- Copy a range between the parts of two bodies that `part` selects, when both
have it. A range that sticks out of either is undefined. -/
def replaceRange {α : Type} (part : Body → Option (Array α))
    (change : (Array α → Array α) → Body → Body)
    (target source : Value) (start origin count : Nat) : Run Unit := do
  match part (← Run.object source).body, part (← Run.object target).body with
  | some elements, some old =>
    if elements.size < origin + count ∨ old.size < start + count then throw .undefinedOperand
    modifyHeap (·.updateBody target
      (change fun old => copyRange old elements start origin count))
  | _, _ => return

/-- Replace a range of the receiver by a range of another object of the same
kind. -/
def replaceFromTo (count : Nat) : Run Bool := do
  if count ≠ 4 then return false
  let receiver ← receiverOf count
  let replacement ← argument count 2
  let start ← argument count 0
  let stop ← argument count 1
  let origin ← argument count 3
  match start.int?, stop.int?, origin.int? with
  | some start, some stop, some origin =>
    let target ← indexedPart receiver false
    let source ← indexedPart replacement false
    match target, source with
    | some target, some source =>
      if target.kind ≠ source.kind then return false
      let length := stop - start + 1
      if length < 0 ∨ start < 1 ∨ origin < 1 ∨ (target.size : Int) < stop
          ∨ (source.size : Int) < origin - 1 + length then
        return false
      let length := length.toNat
      let start := target.fixed + (start - 1).toNat
      let origin := source.fixed + (origin - 1).toNat
      match source.kind with
      | .pointers =>
        replaceRange Body.pointers? Body.mapPointers receiver replacement start origin length
      | .words => replaceRange Body.words? Body.mapWords receiver replacement start origin length
      | .bytes => replaceRange Body.bytes? Body.mapBytes receiver replacement start origin length
      | .chars => replaceRange Body.bytes? Body.mapBytes receiver replacement start origin length
      drop count
      return true
    | _, _ => return false
  | _, _, _ => return false

end Reply

end Smalltalk

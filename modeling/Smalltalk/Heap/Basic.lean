import Smalltalk.Error
import Smalltalk.Layout
import Smalltalk.Object.Basic

namespace Smalltalk

/-! The heap keeps objects in numbered cells and, apart from them, a table that
lists the live objects in the order in which they were registered. A cell that
has been freed is used again before a new one is made, last freed first. The
table keeps nothing alive; it is what can be enumerated and what has a limited
capacity. -/

/-- How often the collector ran and what it achieved. -/
structure HeapCounts where
  partialCollections : Nat := 0
  fullCollections : Nat := 0
  grows : Nat := 0
  freed : Nat := 0
deriving DecidableEq, Inhabited

/-- Cells, the table of registered objects and the limits of its growth. -/
structure Heap where
  cells : Array (Option HeapObject) := #[]
  /-- Cells to be used again, the next one first. -/
  free : List Nat := []
  table : Array Nat := #[]
  capacity : Nat
  /-- Capacity that growing never exceeds. -/
  limit : Nat
  /-- Slots asked for when a registration finds the table full. -/
  growth : Nat
  /-- Collections attempted before the table grows. -/
  attempts : Nat
  /-- Table entries below this one survive partial collections. -/
  tenured : Nat := 0
  lastHash : UInt32 := 0
  /-- Where the last enumeration stopped. -/
  cursor : Nat := 0
  counts : HeapCounts := {}
deriving DecidableEq, Inhabited

namespace Heap

/-- An empty heap with the sizes of a configuration. -/
def ofConfig (config : Config) : Heap :=
  { capacity := config.tableSize
    limit := config.tableMaxSize
    growth := config.tableGrowSize
    attempts := config.compactionAttempts }

/-- The number of registered objects. -/
def size (heap : Heap) : Nat := heap.table.size

/-- The number of objects that can still be registered at the greatest
capacity. -/
def slotsLeft (heap : Heap) : Nat := heap.limit - heap.size

/-- Make every registered object old. -/
def tenure (heap : Heap) : Heap := { heap with tenured := heap.size }

/-- Start the sequence of identity hashes from a given number. -/
def seedHash (heap : Heap) (seed : UInt32) : Heap := { heap with lastHash := seed }

/-! ## Reading -/

/-- The object in a cell. -/
def cell? (heap : Heap) (slot : Nat) : Option HeapObject := heap.cells[slot]?.join

/-- The object that a value refers to. -/
def get? (heap : Heap) (value : Value) : Option HeapObject := value.slot?.bind heap.cell?

/-- The object that a value refers to, which has to be there. -/
def object (heap : Heap) (value : Value) : Except MemoryError HeapObject :=
  match heap.get? value with
  | some object => .ok object
  | none => .error (.invalidReference value)

/-- The values that an object holds, which it has to have. -/
def pointers (heap : Heap) (value : Value) : Except MemoryError (Array Value) := do
  match (← heap.object value).pointers? with
  | some fields => .ok fields
  | none => .error (.notPointers value)

def fetch (heap : Heap) (object : Value) (index : Nat) : Except MemoryError Value := do
  match (← heap.pointers object)[index]? with
  | some value => .ok value
  | none => .error (.indexOutOfBounds object index)

/-- A field that has to hold a small integer. -/
def fetchInt (heap : Heap) (object : Value) (index : Nat) : Except MemoryError Int := do
  let value ← heap.fetch object index
  match value.int? with
  | some n => .ok n
  | none => .error (.notSmallInteger value)

/-- The header of a compiled method, for what is none nothing. -/
def methodHeader? (heap : Heap) (method : Value) : Except MemoryError (Option MethodHeader) := do
  return (← heap.object method).methodHeader?

/-- The number of values that an object holds; what is no object holds none. -/
def pointerCount (heap : Heap) (value : Value) : Nat :=
  ((heap.get? value).map HeapObject.pointerCount).getD 0

/-- The identity hash of an object; what is no object has hash zero. -/
def hashOf (heap : Heap) (value : Value) : Nat := ((heap.get? value).map HeapObject.hash).getD 0

/-! ## Writing -/

/-- Change the object in a cell, if there is one. -/
def updateCell (heap : Heap) (slot : Nat) (change : HeapObject → HeapObject) : Heap :=
  { heap with cells := heap.cells.modify slot (·.map change) }

/-- Change the object that a value refers to, if there is one. -/
def update (heap : Heap) (value : Value) (change : HeapObject → HeapObject) : Heap :=
  match value with
  | .object slot => heap.updateCell slot change
  | .small _ => heap

/-- Change the body of the object that a value refers to. -/
def updateBody (heap : Heap) (value : Value) (change : Body → Body) : Heap :=
  heap.update value fun object => { object with body := change object.body }

/-- Write a field that is known to be there. -/
def setField (heap : Heap) (object : Value) (index : Nat) (value : Value) : Heap :=
  heap.updateBody object (·.mapPointers (·.setIfInBounds index value))

def store (heap : Heap) (object : Value) (index : Nat) (value : Value) :
    Except MemoryError Heap := do
  if index < (← heap.pointers object).size then
    .ok (heap.setField object index value)
  else
    .error (.indexOutOfBounds object index)

/-! ## Placing -/

/-- The next number of the hash sequence. -/
def nextHash (last : UInt32) : UInt32 := 13849 + 27181 * last

/-- Move on in the hash sequence. -/
def advanceHash (heap : Heap) : Heap := { heap with lastHash := nextHash heap.lastHash }

/-- The identity hash that the sequence stands at. -/
def currentHash (heap : Heap) : Nat := heap.lastHash.toNat % 4096

/-- Put an object into the next free cell, or a new one, and at the end of the
table. -/
def place (heap : Heap) (object : HeapObject) : Value × Heap :=
  match heap.free with
  | slot :: free =>
    (.object slot,
      { heap with
        cells := heap.cells.setIfInBounds slot (some object)
        free
        table := heap.table.push slot })
  | [] =>
    let slot := heap.cells.size
    (.object slot,
      { heap with
        cells := heap.cells.push (some object)
        table := heap.table.push slot })

/-! ## What reading sees of writing -/

@[simp] theorem get?_object (heap : Heap) (slot : Nat) :
    heap.get? (.object slot) = heap.cell? slot := rfl

@[simp] theorem get?_small (heap : Heap) (n : SmallInt) : heap.get? (.small n) = none := rfl

theorem cell?_updateCell_same (heap : Heap) (slot : Nat) (change : HeapObject → HeapObject) :
    (heap.updateCell slot change).cell? slot = (heap.cell? slot).map change := by
  simp only [cell?, updateCell, Array.getElem?_modify, if_true]
  cases heap.cells[slot]? with
  | none => rfl
  | some cell => cases cell <;> rfl

theorem cell?_updateCell_other (heap : Heap) {slot other : Nat} (different : slot ≠ other)
    (change : HeapObject → HeapObject) :
    (heap.updateCell slot change).cell? other = heap.cell? other := by
  simp [cell?, updateCell, Array.getElem?_modify, different]

theorem get?_update_same (heap : Heap) (value : Value) (change : HeapObject → HeapObject) :
    (heap.update value change).get? value = (heap.get? value).map change := by
  cases value with
  | small n => rfl
  | object slot => exact cell?_updateCell_same heap slot change

theorem get?_update_other (heap : Heap) {value other : Value} (different : value ≠ other)
    (change : HeapObject → HeapObject) :
    (heap.update value change).get? other = heap.get? other := by
  cases value with
  | small n => rfl
  | object slot =>
    cases other with
    | small n => rfl
    | object otherSlot =>
      exact cell?_updateCell_other heap
        (fun equal => different (congrArg Value.object equal)) change

end Heap

end Smalltalk

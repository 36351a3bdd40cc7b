import Smalltalk.Primitive.Basic

namespace Smalltalk

/-! New objects, copies, and the walk through the objects that there are. -/

namespace Reply

open Run

/-- The instance description of a class, if it has one. -/
def classFormat? (species : Value) : Run (Option ClassFormat) := do
  if species.isSmall then return none
  return ((← getHeap).classFormat species).toOption

/-- Register a new instance of a class. -/
def instantiate (species : Value) (size : Nat) : Run Value := do
  let nil ← getNil
  onHeap (HeapM.instantiate species size nil)

/-- A new instance of a class without indexable instances. -/
def basicNew (count : Nat) : Run Bool := do
  let species ← receiverOf count
  match ← classFormat? species with
  | none => return false
  | some format =>
    if format.isIndexable then return false
    succeed count (← instantiate species 0)

/-- A new instance, of a given size, of a class with indexable instances. -/
def basicNewWithSize (count : Nat) : Run Bool := do
  let species ← receiverOf count
  match (← argument count 0).nat? with
  | none => return false
  | some size =>
    match ← classFormat? species with
    | none => return false
    | some format =>
      if !format.isIndexable then return false
      succeed count (← instantiate species size)

/-- A new method with a given header and as many zero bytes as asked for. -/
def newMethod (count : Nat) : Run Bool := do
  if count ≠ 2 then return false
  let species ← receiverOf count
  let header ← argument count 1
  match (← argument count 0).nat?, header.int? with
  | some size, some bits =>
    let literals := Array.replicate (MethodHeader.mk bits).literalCount (← getNil)
    let method ← register
      { species
        format := Format.withPadding Format.method size
        body := .method (#[header] ++ literals) (Array.replicate size 0) }
    succeed count method
  | _, _ => return false

/-- A copy of an object; a small integer is its own copy. -/
def copy (count : Nat) : Run Bool := do
  let receiver ← receiverOf count
  if receiver.isSmall then succeed count receiver
  else succeed count (← onHeap (HeapM.copy receiver))

/-! ## Enumeration -/

/-- The first object at or after a position of the table. -/
def nextFrom (start : Nat) (species : Option Value) : Run (Option Value) :=
  modifyGet fun machine =>
    let (found, heap) := machine.heap.nextInstance start species
    (found, { machine with heap })

/-- The first instance of a class. -/
def someInstance (count : Nat) : Run Bool := do
  let species ← receiverOf count
  match ← nextFrom 0 (some species) with
  | none => return false
  | some first => succeed count first

/-- The next instance of the receiver's class, or nil. -/
def nextInstance (count : Nat) : Run Bool := do
  let receiver ← receiverOf count
  if receiver.isSmall then return false
  let species ← classOf receiver
  match (← getHeap).indexOf? receiver with
  | none => return false
  | some index =>
    match ← nextFrom (index + 1) (some species) with
    | some next => succeed count next
    | none => succeed count (← getNil)

/-- The first object of all, or nil. -/
def someObject (count : Nat) : Run Bool := do
  match ← nextFrom 0 none with
  | some first => succeed count first
  | none => succeed count (← getNil)

/-- The next object of all, or zero. -/
def nextObject (count : Nat) : Run Bool := do
  let receiver ← receiverOf count
  match (← getHeap).indexOf? receiver with
  | none => succeed count .zero
  | some index =>
    match ← nextFrom (index + 1) none with
    | some next => succeed count next
    | none => succeed count .zero

/-- The identity hash of an object. -/
def identityHash (count : Nat) : Run Bool := do
  let receiver ← receiverOf count
  if receiver.isSmall then return false
  succeed count (.ofInt ((← getHeap).hashOf receiver))

end Reply

end Smalltalk

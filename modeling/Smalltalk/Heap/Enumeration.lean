import Smalltalk.Heap.Basic

namespace Smalltalk

/-! Registered objects can be walked through in table order, all of them or the
instances of one class. Where the last walk stopped is remembered, because the
next question is usually about that object. -/

namespace Heap

/-- Whether the object in a slot is an instance of a class; without a class
every object is. -/
def isInstance (heap : Heap) (species : Option Value) (slot : Nat) : Bool :=
  match species with
  | none => true
  | some species => (heap.cell? slot).any fun object => object.species = species

/-- The position of the first instance at or after a position. -/
def nextPosition? (heap : Heap) (start : Nat) (species : Option Value) : Option Nat :=
  ((heap.table.toList.drop start).findIdx? (heap.isInstance species)).map (start + ·)

/-- The first instance at or after a position of the table. -/
def nextInstance (heap : Heap) (start : Nat) (species : Option Value) : Option Value × Heap :=
  match heap.nextPosition? start species with
  | none => (none, heap)
  | some position =>
    (heap.table[position]?.map Value.object, { heap with cursor := position })

/-- The position of an object in the table. -/
def indexOf? (heap : Heap) (value : Value) : Option Nat := do
  let slot ← value.slot?
  if heap.table[heap.cursor]? = some slot then
    return heap.cursor
  else
    heap.table.toList.findIdx? (· = slot)

end Heap

end Smalltalk

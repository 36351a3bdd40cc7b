import Smalltalk.Heap.Basic

namespace Smalltalk

/-! A method dictionary is an open hash table. Its selectors start at the field
that the low bits of their hash name and go on, around the end, to the first
empty field; the methods stand in a second array in the same order. -/

namespace MethodDictionary

/-- The least power of two that is not below `n`. -/
def ceilingPowerOfTwo (n : Nat) : Nat := if n ≤ 1 then 1 else 1 <<< ((n - 1).log2 + 1)

theorem le_ceilingPowerOfTwo (n : Nat) : n ≤ ceilingPowerOfTwo n := by
  unfold ceilingPowerOfTwo
  split
  · assumption
  · have := Nat.lt_log2_self (n := n - 1)
    rw [Nat.shiftLeft_eq]
    omega

example : ceilingPowerOfTwo 32 = 32 := by decide
example : ceilingPowerOfTwo 33 = 64 := by decide

/-- The place among `capacity` selectors where the search for a hash starts. -/
def startOf (hash capacity : Nat) : Nat :=
  let place := hash % ceilingPowerOfTwo capacity
  if place < capacity then place else 0

/-- The places that a search visits, in order: from its start to the end, and
once more from the beginning to the end. -/
def probes (hash capacity : Nat) : List Nat :=
  List.range' (startOf hash capacity) (capacity - startOf hash capacity) ++ List.range capacity

/-- The place of a selector: the first probe that holds it, unless one before it
is empty. -/
def search (selectors : Array Value) (selector nil : Value) : List Nat → Option Nat
  | [] => none
  | place :: rest =>
    let candidate := selectors[place]?.getD nil
    if candidate = selector then some place
    else if candidate = nil then none
    else search selectors selector nil rest

end MethodDictionary

namespace Heap

/-- The method of a selector in a method dictionary. What is too short to be a
dictionary has no methods. -/
def methodAt? (heap : Heap) (dictionary selector nil : Value) :
    Except MemoryError (Option Value) := do
  match (heap.get? dictionary).bind HeapObject.pointers? with
  | none => return none
  | some fields =>
    if fields.size ≤ DictionaryField.selectors then
      return none
    let selectors := fields.drop DictionaryField.selectors
    let probes := MethodDictionary.probes (heap.hashOf selector) selectors.size
    match MethodDictionary.search selectors selector nil probes with
    | none => return none
    | some place =>
      let methods := fields[DictionaryField.methods]?.getD nil
      return some (← heap.fetch methods place)

end Heap

end Smalltalk

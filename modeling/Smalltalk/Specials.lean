import Smalltalk.Heap.Basic

namespace Smalltalk

/-! The special objects are found through one array. The machine keeps the ones
that it needs at every turn at hand and reads them again whenever the array
changes. -/

/-- The special objects array and the entries that are kept at hand. -/
structure Specials where
  array : Value
  nil : Value
  false : Value
  true : Value
  smallIntegerClass : Value
  floatClass : Value
  methodContextClass : Value
  blockContextClass : Value
  pointClass : Value
  largePositiveIntegerClass : Value
  arrayClass : Value
  messageClass : Value
  characterClass : Value
  /-- Pairs of a selector and its argument count, for the messages that have an
  instruction of their own. -/
  specialSelectors : Value
  characterTable : Value
deriving DecidableEq, Inhabited

namespace Specials

/-- Read the entries of a special objects array. -/
def ofArray (heap : Heap) (array : Value) : Except MemoryError Specials := do
  return {
    array
    nil := ← heap.fetch array Special.nil
    false := ← heap.fetch array Special.false
    true := ← heap.fetch array Special.true
    smallIntegerClass := ← heap.fetch array Special.smallIntegerClass
    floatClass := ← heap.fetch array Special.floatClass
    methodContextClass := ← heap.fetch array Special.methodContextClass
    blockContextClass := ← heap.fetch array Special.blockContextClass
    pointClass := ← heap.fetch array Special.pointClass
    largePositiveIntegerClass := ← heap.fetch array Special.largePositiveIntegerClass
    arrayClass := ← heap.fetch array Special.arrayClass
    messageClass := ← heap.fetch array Special.messageClass
    characterClass := ← heap.fetch array Special.characterClass
    specialSelectors := ← heap.fetch array Special.specialSelectors
    characterTable := ← heap.fetch array Special.characterTable }

/-- The object for a truth value. -/
def boolean (specials : Specials) (value : Bool) : Value :=
  if value then specials.true else specials.false

/-- The objects kept at hand, the array first. -/
def values (specials : Specials) : List Value :=
  [specials.array, specials.nil, specials.false, specials.true, specials.smallIntegerClass,
    specials.floatClass, specials.methodContextClass, specials.blockContextClass,
    specials.pointClass, specials.largePositiveIntegerClass, specials.arrayClass,
    specials.messageClass, specials.characterClass, specials.specialSelectors,
    specials.characterTable]

/-- Change every object kept at hand. -/
def map (change : Value → Value) (specials : Specials) : Specials :=
  { array := change specials.array
    nil := change specials.nil
    false := change specials.false
    true := change specials.true
    smallIntegerClass := change specials.smallIntegerClass
    floatClass := change specials.floatClass
    methodContextClass := change specials.methodContextClass
    blockContextClass := change specials.blockContextClass
    pointClass := change specials.pointClass
    largePositiveIntegerClass := change specials.largePositiveIntegerClass
    arrayClass := change specials.arrayClass
    messageClass := change specials.messageClass
    characterClass := change specials.characterClass
    specialSelectors := change specials.specialSelectors
    characterTable := change specials.characterTable }

@[simp] theorem values_map (change : Value → Value) (specials : Specials) :
    (specials.map change).values = specials.values.map change := rfl

end Specials

end Smalltalk

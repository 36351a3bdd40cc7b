import Smalltalk.Heap.Registration

namespace Smalltalk

/-! New instances take their shape from the format of their class: named fields
and indexable ones filled with nil, or raw data filled with zeros. -/

namespace Heap

/-- The instance description of a class. -/
def classFormat (heap : Heap) (species : Value) : Except MemoryError ClassFormat := do
  return ⟨← heap.fetchInt species ClassField.format⟩

end Heap

/-- A new instance of a class with `size` indexable elements. -/
def ClassFormat.instantiate (format : ClassFormat) (species : Value) (size : Nat) (nil : Value) :
    HeapObject :=
  let code := format.instanceFormat
  if Format.isPointers code then
    { species, format := code, body := .pointers (Array.replicate (format.fieldCount + size) nil) }
  else if Format.isWords code then
    { species, format := Format.words, body := .words (Array.replicate size 0) }
  else if Format.isBytes code then
    { species
      format := Format.withPadding Format.bytes size
      body := .bytes (Array.replicate size 0) }
  else
    { species
      format := Format.withPadding Format.method size
      body := .method #[Value.zero] (Array.replicate size 0) }

namespace HeapM

variable {ρ : Type} [RootSet ρ]

/-- Register a new instance of a class. -/
def instantiate (species : Value) (size : Nat) (nil : Value) : HeapM ρ Value := do
  let description ← HeapM.read (·.fetch species ClassField.format)
  match description.int? with
  | none => throw (.notAClass species)
  | some bits => register (ClassFormat.instantiate ⟨bits⟩ species size nil)

/-- Register a copy of an object, which has an identity of its own. -/
def copy (object : Value) : HeapM ρ Value := do
  register (← HeapM.read (·.object object))

end HeapM

end Smalltalk

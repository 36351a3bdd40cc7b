import Smalltalk.Value

namespace Smalltalk

/-! Indexed access remembers, for each receiver, where its indexable part
starts and how long it is, so that the inline forms of `at:` and `at:put:` can
do without a send. Reads and writes are remembered apart. -/

/-- How the elements of an indexable object are read and written; `chars` are
bytes that appear as Characters. -/
inductive IndexedKind where
  | pointers
  | words
  | bytes
  | chars
deriving DecidableEq, Inhabited

/-- The indexable part of an object: `size` elements after `fixed` named
fields. -/
structure IndexedPart where
  object : Value
  kind : IndexedKind
  fixed : Nat
  size : Nat
deriving DecidableEq, Inhabited

/-- Whether an access reads or writes. -/
inductive Access where
  | read
  | write
deriving DecidableEq

/-- One remembered part per slot and kind of access. The slot of an object is
its identity hash reduced by the size of the cache. -/
structure AtCache where
  reads : Array (Option IndexedPart)
  writes : Array (Option IndexedPart)
deriving DecidableEq, Inhabited

namespace AtCache

/-- A cache of `size` unused slots for each kind of access. -/
def ofSize (size : Nat) : AtCache :=
  { reads := Array.replicate size none, writes := Array.replicate size none }

/-- The slots for one kind of access. -/
def side (cache : AtCache) : Access → Array (Option IndexedPart)
  | .read => cache.reads
  | .write => cache.writes

/-- The part remembered for `object`, if the slot of its hash is its own. -/
def find? (cache : AtCache) (object : Value) (hash : Nat) (access : Access) :
    Option IndexedPart :=
  let slots := cache.side access
  (slots[hash % slots.size]?.join).filter fun part => part.object = object

/-- Remember a part in place of what its slot held. -/
def insert (cache : AtCache) (part : IndexedPart) (hash : Nat) : Access → AtCache
  | .read =>
    { cache with reads := cache.reads.setIfInBounds (hash % cache.reads.size) (some part) }
  | .write =>
    { cache with writes := cache.writes.setIfInBounds (hash % cache.writes.size) (some part) }

/-- Forget everything. -/
def clear (cache : AtCache) : AtCache :=
  { reads := cache.reads.map fun _ => none, writes := cache.writes.map fun _ => none }

/-- The remembered objects, reads first. -/
def values (cache : AtCache) : List Value :=
  (cache.reads.toList ++ cache.writes.toList).filterMap (·.map IndexedPart.object)

/-- Change the remembered objects. -/
def map (change : Value → Value) (cache : AtCache) : AtCache :=
  let changePart (part : IndexedPart) := { part with object := change part.object }
  { reads := cache.reads.map (·.map changePart)
    writes := cache.writes.map (·.map changePart) }

@[simp] theorem values_clear (cache : AtCache) : cache.clear.values = [] := by
  simp [values, clear]

/-- Whatever is found was remembered for the object that was asked for. -/
theorem object_of_find? {cache : AtCache} {object : Value} {hash : Nat} {access : Access}
    {part : IndexedPart} (found : cache.find? object hash access = some part) :
    part.object = object := by
  simpa using (Option.filter_eq_some_iff.mp found).2

end AtCache

end Smalltalk

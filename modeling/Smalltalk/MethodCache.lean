import Smalltalk.Value

namespace Smalltalk

/-! The method cache remembers which method a selector found in a class. A key
has a fixed sequence of slots, its probes; it is stored in one of them and
looked for in all of them. A full sequence loses an entry, chosen in rotation,
so the cache may forget but never answers for another key. -/

/-- What a lookup found, under the key it was found for. -/
structure CacheEntry where
  selector : Value
  species : Value
  method : Value
  primitive : Nat
deriving DecidableEq, Inhabited

namespace CacheEntry

/-- An unused slot. Its selector is a small integer, which no message has. -/
def vacant : CacheEntry := ⟨.zero, .zero, .zero, 0⟩

def isVacant (entry : CacheEntry) : Bool := entry.selector = .zero

/-- The values of an entry in the order in which they are visited. -/
def values (entry : CacheEntry) : List Value :=
  if entry.isVacant then [] else [entry.selector, entry.species, entry.method]

/-- Change the values of a used entry. -/
def map (change : Value → Value) (entry : CacheEntry) : CacheEntry :=
  if entry.isVacant then entry
  else
    { entry with
      selector := change entry.selector
      species := change entry.species
      method := change entry.method }

end CacheEntry

/-- How often the cache answered, failed to, and how many method dictionaries
were probed because it failed. -/
structure CacheCounts where
  hits : Nat := 0
  misses : Nat := 0
  dictionaryProbes : Nat := 0
deriving DecidableEq, Inhabited

/-- A cache of method lookups. `turn` says which probe of a full sequence is
evicted next. -/
structure MethodCache where
  entries : Array CacheEntry
  probes : Nat
  turn : Nat := 0
  counts : CacheCounts := {}
deriving DecidableEq, Inhabited

namespace MethodCache

/-- A cache of `size` vacant slots. -/
def ofSize (size probes : Nat) : MethodCache :=
  { entries := Array.replicate size .vacant, probes }

/-- The slot of probe number `turn` for a key with these hashes. The first slot
mixes both hashes; further ones follow at the distance of the selector's hash. -/
def slotAt (size selectorHash classHash turn : Nat) : Nat :=
  ((selectorHash ^^^ classHash) + turn * selectorHash) % size

/-- The probe sequence of a key. -/
def slots (cache : MethodCache) (selectorHash classHash : Nat) : List Nat :=
  (List.range cache.probes).map (slotAt cache.entries.size selectorHash classHash)

/-- The entry in a slot; a slot outside the cache is vacant. -/
def entryAt (cache : MethodCache) (slot : Nat) : CacheEntry :=
  cache.entries[slot]?.getD .vacant

/-- The entry for a key, without counting. -/
def find? (cache : MethodCache) (selector species : Value)
    (selectorHash classHash : Nat) : Option CacheEntry :=
  ((cache.slots selectorHash classHash).map cache.entryAt).find?
    fun entry => entry.selector = selector ∧ entry.species = species

def countHit (cache : MethodCache) : MethodCache :=
  { cache with counts.hits := cache.counts.hits + 1 }

def countMiss (cache : MethodCache) : MethodCache :=
  { cache with counts.misses := cache.counts.misses + 1 }

def countDictionaryProbe (cache : MethodCache) : MethodCache :=
  { cache with counts.dictionaryProbes := cache.counts.dictionaryProbes + 1 }

/-- Look up a key and count whether it was there. -/
def lookup (cache : MethodCache) (selector species : Value)
    (selectorHash classHash : Nat) : Option CacheEntry × MethodCache :=
  match cache.find? selector species selectorHash classHash with
  | some entry => (some entry, cache.countHit)
  | none => (none, cache.countMiss)

/-- Store an entry in the first vacant slot of its probe sequence, or in the
slot whose turn it is. -/
def insert (cache : MethodCache) (entry : CacheEntry)
    (selectorHash classHash : Nat) : MethodCache :=
  match (cache.slots selectorHash classHash).find? fun slot => (cache.entryAt slot).isVacant with
  | some slot => { cache with entries := cache.entries.setIfInBounds slot entry }
  | none =>
    let victim := slotAt cache.entries.size selectorHash classHash cache.turn
    { cache with
      entries := cache.entries.setIfInBounds victim entry
      turn := (cache.turn + 1) % cache.probes }

/-- Vacate every slot. -/
def clear (cache : MethodCache) : MethodCache :=
  { cache with entries := cache.entries.map fun _ => .vacant }

/-- Vacate the slots whose entry is selected. -/
def forget (cache : MethodCache) (selected : CacheEntry → Bool) : MethodCache :=
  { cache with
    entries := cache.entries.map fun entry => if selected entry then .vacant else entry }

/-- Forget everything that was found to be `method`. -/
def forgetMethod (cache : MethodCache) (method : Value) : MethodCache :=
  cache.forget fun entry => entry.method = method

/-- Forget everything that was found for `selector`. -/
def forgetSelector (cache : MethodCache) (selector : Value) : MethodCache :=
  cache.forget fun entry => entry.selector = selector

/-- The values that the used slots hold. -/
def values (cache : MethodCache) : List Value :=
  cache.entries.toList.flatMap CacheEntry.values

/-- Change the values that the used slots hold. -/
def map (change : Value → Value) (cache : MethodCache) : MethodCache :=
  { cache with entries := cache.entries.map (·.map change) }

@[simp] theorem values_clear (cache : MethodCache) : cache.clear.values = [] := by
  simp [values, clear, CacheEntry.values, CacheEntry.isVacant, CacheEntry.vacant]

/-- Whatever a lookup answers was stored under the key that was asked for. -/
theorem key_of_find? {cache : MethodCache} {selector species : Value}
    {selectorHash classHash : Nat} {entry : CacheEntry}
    (found : cache.find? selector species selectorHash classHash = some entry) :
    entry.selector = selector ∧ entry.species = species := by
  simpa using List.find?_some found

end MethodCache

end Smalltalk

import Smalltalk.Heap.Collection

namespace Smalltalk

/-! A registration that finds the table full first collects and, if that does
not free enough, grows the table. At the greatest capacity a full collection is
the last resort. -/

namespace Heap

/-- Grow the table, up to its limit. -/
def grow (heap : Heap) (request : Nat) : Except MemoryError Heap :=
  if heap.limit < heap.capacity + request then
    .error (.tableFull heap.capacity)
  else
    .ok
      { heap with
        capacity := heap.capacity + request
        counts.grows := heap.counts.grows + 1 }

end Heap

namespace Rooted

variable {ρ : Type} [RootSet ρ]

/-- The attempt before which the holder of roots gives up its caches. -/
def flushAttempt : Nat := 2

/-- Collect partially, up to `remaining` times, until `request` entries fewer
than `initial` are left. A collection is skipped when nothing has been flushed
since the last one, because it would free nothing. Answers whether enough
became free. -/
def reclaim (request initial : Nat) :
    (attempt remaining : Nat) → (dirty : Bool) → Rooted ρ → Bool × Rooted ρ
  | _, 0, _, rooted => (false, rooted)
  | attempt, remaining + 1, dirty, rooted =>
    let flushes := attempt = flushAttempt
    let rooted := if flushes then rooted.flush else rooted
    if flushes ∨ dirty then
      let collected := rooted.partialCollect
      if request ≤ initial - collected.heap.size then
        (true, collected)
      else
        reclaim request initial (attempt + 1) remaining false collected
    else
      reclaim request initial (attempt + 1) remaining false rooted

end Rooted

namespace HeapM

variable {ρ : Type} [RootSet ρ]

/-- Make room for `request` more registrations: collect, and grow the table only
if that was not enough. -/
def makeRoom (request : Nat) : HeapM ρ Unit := fun rooted =>
  match rooted.reclaim request rooted.heap.size 0 rooted.heap.attempts true with
  | (true, collected) => .ok () collected
  | (false, collected) =>
    if collected.heap.limit < collected.heap.capacity + request then
      let swept := collected.fullCollect
      if swept.heap.size < swept.heap.capacity then
        .ok () swept
      else
        .error (.tableFull swept.heap.capacity) swept
    else
      match collected.heap.grow request with
      | .ok heap => .ok () { collected with heap }
      | .error error => .error error collected

/-- Put an object into the heap with the next hash of the sequence. -/
def placeFresh (object : HeapObject) : HeapM ρ Value :=
  modifyGet fun rooted =>
    let heap := rooted.heap.advanceHash
    let (value, heap) := heap.place { object with hash := heap.currentHash }
    (value, { rooted with heap })

/-- Register an object under a fresh identity hash. What it refers to stays
alive while room is made for it. -/
def register (object : HeapObject) : HeapM ρ Value := do
  let heap := (← get).heap
  if heap.capacity ≤ heap.size then
    HeapM.withPending object.references (makeRoom heap.growth)
  placeFresh object

end HeapM

namespace Heap

/-- Register an object that comes with its identity hash. The table grows
without collecting, and the sequence of hashes moves on as for any other. -/
def registerLoaded (heap : Heap) (object : HeapObject) : Except MemoryError (Value × Heap) := do
  let heap ← if heap.capacity ≤ heap.size then heap.grow heap.growth else pure heap
  return heap.advanceHash.place object

end Heap

end Smalltalk

import Smalltalk.Heap.Roots

namespace Smalltalk

/-! Collection marks what can be reached from the roots and from the table
entries below a starting point, frees the other objects at or after that point
and closes the gaps they leave in the table, keeping the order of the rest. -/

namespace Heap

/-! ## Marking -/

/-- Whether a cell holds an object that has not been marked. -/
def needsMark (heap : Heap) (marks : Array Bool) (slot : Nat) : Bool :=
  (heap.cell? slot).isSome && !(marks[slot]?.getD true)

/-- Mark the first slot that needs it and go on with what its object refers to,
at most `budget` times. Every round marks one more cell, so a budget of one
round per cell is enough. -/
def markFrom (heap : Heap) : (budget : Nat) → (pending : List Nat) → Array Bool → Array Bool
  | 0, _, marks => marks
  | budget + 1, pending, marks =>
    match pending.dropWhile fun slot => !heap.needsMark marks slot with
    | [] => marks
    | slot :: rest =>
      let successors := ((heap.cell? slot).map HeapObject.successors).getD []
      heap.markFrom budget (successors ++ rest) (marks.setIfInBounds slot true)

/-- Which cells can be reached from the given slots. -/
def reachable (heap : Heap) (slots : List Nat) : Array Bool :=
  heap.markFrom heap.cells.size slots (Array.replicate heap.cells.size false)

/-- Whether a slot is marked. -/
def isMarked (marks : Array Bool) (slot : Nat) : Bool := marks[slot]?.getD false

/-! ## Compaction -/

/-- Empty a cell and make it the next one to be used. -/
def release (heap : Heap) (slot : Nat) : Heap :=
  { heap with cells := heap.cells.setIfInBounds slot none, free := slot :: heap.free }

/-- Free every unreachable object registered at or after `start` and close the
gaps. -/
def compact (heap : Heap) (start : Nat) (roots : List Value) : Heap :=
  let start := min start heap.size
  let entries := heap.table.toList
  let seeds := roots.filterMap Value.slot? ++ entries.take start
  let marks := heap.reachable seeds
  let (live, dead) := (entries.drop start).partition (isMarked marks)
  let table := (entries.take start ++ live).toArray
  let swept := dead.foldl release heap
  { swept with
    table
    tenured := min heap.tenured table.size
    cursor := 0
    counts.freed := heap.counts.freed + dead.length }

/-- Collect among the objects that are not tenured. -/
def partialCollect (heap : Heap) (roots : List Value) : Heap :=
  compact
    { heap with counts.partialCollections := heap.counts.partialCollections + 1 }
    heap.tenured roots

end Heap

namespace Rooted

variable {ρ : Type} [RootSet ρ]

/-- Free what is unreachable at or after `start`. -/
def compact (rooted : Rooted ρ) (start : Nat) : Rooted ρ :=
  { rooted with heap := rooted.heap.compact start rooted.rootValues }

/-- Collect among the objects that are not tenured. -/
def partialCollect (rooted : Rooted ρ) : Rooted ρ :=
  { rooted with heap := rooted.heap.partialCollect rooted.rootValues }

/-- Have the holder of roots give up its caches and collect everything. -/
def fullCollect (rooted : Rooted ρ) : Rooted ρ :=
  let counted := rooted.mapHeap fun heap =>
    { heap with counts.fullCollections := heap.counts.fullCollections + 1 }
  counted.flush.compact 0

end Rooted

end Smalltalk

import Smalltalk.Heap.Basic

namespace Smalltalk

/-! What is alive is decided by references held outside the heap. Whoever holds
such references shows them to the collector, lets them be redirected, and may
hold some of them only for speed, which it gives up when asked. -/

/-- A holder of references into the heap. -/
class RootSet (ρ : Type) where
  /-- The values held, in order. -/
  values : ρ → List Value
  /-- Redirect every value held. -/
  rename : (Nat → Nat) → ρ → ρ
  /-- Give up the values that are held only for speed. -/
  flush : ρ → ρ

/-- Nobody holds anything. -/
instance : RootSet Unit where
  values _ := []
  rename _ roots := roots
  flush roots := roots

instance : RootSet (List Value) where
  values roots := roots
  rename redirect roots := roots.map (Value.rename redirect)
  flush roots := roots

/-- Two lists of roots. The cached ones are given up on a flush, and the
flushes are counted. -/
structure RootLists where
  strong : List Value := []
  cached : List Value := []
  flushes : Nat := 0
deriving DecidableEq, Inhabited

instance : RootSet RootLists where
  values roots := roots.strong ++ roots.cached
  rename redirect roots :=
    { roots with
      strong := roots.strong.map (Value.rename redirect)
      cached := roots.cached.map (Value.rename redirect) }
  flush roots := { roots with cached := [], flushes := roots.flushes + 1 }

/-- Roots together with the references of an object that is about to be
registered. -/
structure PendingRoots (ρ : Type) where
  roots : ρ
  pending : List Value

instance {ρ : Type} [RootSet ρ] : RootSet (PendingRoots ρ) where
  values pending := RootSet.values pending.roots ++ pending.pending
  rename redirect pending :=
    { roots := RootSet.rename redirect pending.roots
      pending := pending.pending.map (Value.rename redirect) }
  flush pending := { pending with roots := RootSet.flush pending.roots }

/-- A heap and whoever holds references into it. -/
structure Rooted (ρ : Type) where
  heap : Heap
  roots : ρ

/-- A computation on a heap that may collect, and may fail. What it did before
it failed remains done. -/
abbrev HeapM (ρ : Type) := EStateM MemoryError (Rooted ρ)

namespace Rooted

variable {ρ : Type}

/-- The values held from outside. -/
def rootValues [RootSet ρ] (rooted : Rooted ρ) : List Value := RootSet.values rooted.roots

/-- Have the holder give up what it holds only for speed. -/
def flush [RootSet ρ] (rooted : Rooted ρ) : Rooted ρ :=
  { rooted with roots := RootSet.flush rooted.roots }

/-- Change the heap alone. -/
def mapHeap (change : Heap → Heap) (rooted : Rooted ρ) : Rooted ρ :=
  { rooted with heap := change rooted.heap }

end Rooted

namespace HeapM

variable {ρ : Type}

/-- Run a computation that counts further values among the roots. -/
def withPending {α : Type} (pending : List Value) (run : HeapM (PendingRoots ρ) α) :
    HeapM ρ α :=
  fun rooted =>
    match run ⟨rooted.heap, ⟨rooted.roots, pending⟩⟩ with
    | .ok result after => .ok result ⟨after.heap, after.roots.roots⟩
    | .error error after => .error error ⟨after.heap, after.roots.roots⟩

/-- Read from the heap. -/
def read {α : Type} (query : Heap → Except MemoryError α) : HeapM ρ α := do
  match query (← get).heap with
  | .ok result => return result
  | .error error => throw error

end HeapM

end Smalltalk

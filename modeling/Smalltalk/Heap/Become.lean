import Smalltalk.Heap.Roots

namespace Smalltalk

/-! Objects exchange their identities by having every reference to one replaced
by a reference to the other, in the heap and in the roots. The request is
checked as a whole before anything is changed. -/

/-- Which slots are replaced, and by which. -/
abbrev Redirection := List (Nat × Nat)

namespace Redirection

/-- Where a reference to `slot` leads after the replacement. -/
def apply (redirection : Redirection) (slot : Nat) : Nat :=
  (redirection.lookup slot).getD slot

/-- The replacement in the other direction. -/
def inverse (redirection : Redirection) : Redirection :=
  redirection.map fun (source, target) => (target, source)

end Redirection

namespace Heap

/-- The slot that a value refers to, when an object is there. -/
def liveSlot? (heap : Heap) (value : Value) : Option Nat :=
  value.slot?.filter fun slot => (heap.cell? slot).isSome

/-- Every source has to be an object, and none may come twice. -/
def checkSources (heap : Heap) : (seen : List Nat) → List Value → Except BecomeError (List Nat)
  | seen, [] => .ok seen.reverse
  | seen, source :: rest =>
    match heap.liveSlot? source with
    | none => .error (.nonObjectInSource source)
    | some slot =>
      if seen.contains slot then .error (.repeatedInSource source)
      else heap.checkSources (slot :: seen) rest

/-- Every target has to be an object that is no source, and in an exchange none
may come twice. -/
def checkTargets (heap : Heap) (sources : List Nat) (twoWay : Bool) :
    (seen : List Nat) → List Value → Except BecomeError (List Nat)
  | seen, [] => .ok seen.reverse
  | seen, target :: rest =>
    match heap.liveSlot? target with
    | none => .error (.nonObjectInTarget target)
    | some slot =>
      if sources.contains slot then .error (.overlapping target)
      else if twoWay ∧ seen.contains slot then .error (.repeatedInTarget target)
      else heap.checkTargets sources twoWay (slot :: seen) rest

/-- The replacement that a request asks for, if it is sound. -/
def redirection (heap : Heap) (sources targets : List Value) (twoWay : Bool) :
    Except BecomeError Redirection := do
  if sources.length ≠ targets.length then throw .differentLengths
  let sources ← heap.checkSources [] sources
  let targets ← heap.checkTargets sources twoWay [] targets
  let forward : Redirection := sources.zip targets
  return if twoWay then forward ++ forward.inverse else forward

/-- Redirect the references of every registered object. -/
def rename (heap : Heap) (redirect : Nat → Nat) : Heap :=
  heap.table.foldl (fun heap slot => heap.updateCell slot (·.rename redirect)) heap

end Heap

namespace Rooted

variable {ρ : Type} [RootSet ρ]

/-- Replace the sources by the targets everywhere, and the targets by the
sources when the exchange goes both ways; then have the holder of roots give up
its caches. A refused request changes nothing. -/
def become (rooted : Rooted ρ) (sources targets : List Value) (twoWay : Bool) :
    Except BecomeError (Rooted ρ) := do
  let redirection ← rooted.heap.redirection sources targets twoWay
  let renamed : Rooted ρ :=
    { heap := rooted.heap.rename redirection.apply
      roots := RootSet.rename redirection.apply rooted.roots }
  return renamed.flush

end Rooted

end Smalltalk

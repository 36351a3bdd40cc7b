import Smalltalk.Heap.Become
import Smalltalk.Heap.Instantiation
import Smalltalk.Proofs.Heap.Pressure

namespace Smalltalk

/-! The heap asks whoever holds references for their values, has them renamed and flushed, and
knows nothing else of them. A holder with something more to carry carries it through every
collection and every registration. -/

variable {ρ σ α β : Type} [RootSet ρ] [RootSet σ] {change : ρ → σ}

/-- One holder stands for another one: it holds the same values, and it does so as well after
they are renamed or flushed. -/
structure RootSet.StandsFor (change : ρ → σ) : Prop where
  values : ∀ roots, RootSet.values (change roots) = RootSet.values roots
  rename : ∀ redirect roots,
    RootSet.rename redirect (change roots) = change (RootSet.rename redirect roots)
  flush : ∀ roots, RootSet.flush (change roots) = change (RootSet.flush roots)

/-- Values that are held besides make no difference. -/
theorem RootSet.StandsFor.pending (stands : RootSet.StandsFor change) :
    RootSet.StandsFor fun pending : PendingRoots ρ =>
      (⟨change pending.roots, pending.pending⟩ : PendingRoots σ) where
  values pending := congrArg (· ++ pending.pending) (stands.values pending.roots)
  rename redirect pending := congrArg (PendingRoots.mk · _) (stands.rename redirect pending.roots)
  flush pending := congrArg (PendingRoots.mk · _) (stands.flush pending.roots)

namespace Rooted

/-- The same heap with another holder. -/
def mapRoots (change : ρ → σ) (rooted : Rooted ρ) : Rooted σ := ⟨rooted.heap, change rooted.roots⟩

omit [RootSet ρ] [RootSet σ] in
@[simp] theorem heap_mapRoots (rooted : Rooted ρ) : (rooted.mapRoots change).heap = rooted.heap := rfl

section

variable (stands : RootSet.StandsFor change) (rooted : Rooted ρ)

include stands

theorem flush_mapRoots : (rooted.mapRoots change).flush = rooted.flush.mapRoots change :=
  congrArg (Rooted.mk rooted.heap) (stands.flush rooted.roots)

theorem compact_mapRoots (start : Nat) :
    (rooted.mapRoots change).compact start = (rooted.compact start).mapRoots change := by
  have same : (rooted.mapRoots change).rootValues = rooted.rootValues := stands.values rooted.roots
  simp only [compact, same]
  rfl

theorem partialCollect_mapRoots :
    (rooted.mapRoots change).partialCollect = rooted.partialCollect.mapRoots change := by
  have same : (rooted.mapRoots change).rootValues = rooted.rootValues := stands.values rooted.roots
  simp only [partialCollect, same]
  rfl

theorem fullCollect_mapRoots :
    (rooted.mapRoots change).fullCollect = rooted.fullCollect.mapRoots change := by
  simp only [fullCollect]
  rw [← compact_mapRoots stands, ← flush_mapRoots stands]
  rfl

theorem reclaim_mapRoots (request initial attempt remaining : Nat) (dirty : Bool) :
    (rooted.mapRoots change).reclaim request initial attempt remaining dirty
      = ((rooted.reclaim request initial attempt remaining dirty).1,
        (rooted.reclaim request initial attempt remaining dirty).2.mapRoots change) := by
  induction remaining generalizing attempt dirty rooted with
  | zero => rfl
  | succ remaining induction =>
    have flushed : (if attempt = flushAttempt then (rooted.mapRoots change).flush
        else rooted.mapRoots change)
          = (if attempt = flushAttempt then rooted.flush else rooted).mapRoots change := by
      split
      · exact flush_mapRoots stands rooted
      · rfl
    simp only [reclaim, flushed]
    generalize (if attempt = flushAttempt then rooted.flush else rooted) = rooted
    simp only [partialCollect_mapRoots stands, heap_mapRoots]
    split
    · split
      · rfl
      · exact induction _ _ _
    · exact induction _ _ _

theorem become_mapRoots (sources targets : List Value) (twoWay : Bool) :
    (rooted.mapRoots change).become sources targets twoWay
      = (rooted.become sources targets twoWay).map (mapRoots change) := by
  simp only [become, heap_mapRoots]
  cases rooted.heap.redirection sources targets twoWay with
  | error reason => rfl
  | ok redirection =>
    refine congrArg Except.ok ?_
    rw [← flush_mapRoots stands]
    exact congrArg (fun roots => flush ⟨_, roots⟩) (stands.rename _ rooted.roots)

end

end Rooted

namespace HeapM

open Rooted

/-- What a computation comes to, with another holder. -/
def mapRoots (change : ρ → σ) :
    EStateM.Result MemoryError (Rooted ρ) α → EStateM.Result MemoryError (Rooted σ) α
  | .ok result after => .ok result (after.mapRoots change)
  | .error error after => .error error (after.mapRoots change)

section

variable (stands : RootSet.StandsFor change)

include stands

theorem makeRoom_mapRoots (request : Nat) (rooted : Rooted ρ) :
    makeRoom request (rooted.mapRoots change) = mapRoots change (makeRoom request rooted) := by
  simp only [makeRoom, Rooted.reclaim_mapRoots stands, Rooted.heap_mapRoots]
  rcases rooted.reclaim request rooted.heap.size 0 rooted.heap.attempts true with ⟨enough, collected⟩
  cases enough with
  | true => rfl
  | false =>
    simp only [Rooted.heap_mapRoots, Rooted.fullCollect_mapRoots stands]
    split
    · split <;> rfl
    · cases collected.heap.grow request <;> rfl

theorem register_mapRoots (object : HeapObject) (rooted : Rooted ρ) :
    register object (rooted.mapRoots change) = mapRoots change (register object rooted) := by
  have room : makeRoom rooted.heap.growth
      (⟨rooted.heap, ⟨change rooted.roots, object.references⟩⟩ : Rooted (PendingRoots σ)) = _ :=
    makeRoom_mapRoots stands.pending rooted.heap.growth
      ⟨rooted.heap, ⟨rooted.roots, object.references⟩⟩
  rcases register_steps object rooted with
    ⟨fits, same⟩ | ⟨full, ⟨left, made, same⟩ | ⟨error, left, unmade, same⟩⟩
  · rcases register_steps object (rooted.mapRoots change) with ⟨-, again⟩ | ⟨full, -⟩
    · rw [same, again]
      rfl
    · exact absurd full (Nat.not_le.mpr fits)
  · rw [made] at room
    rcases register_steps object (rooted.mapRoots change) with
      ⟨fits, -⟩ | ⟨-, ⟨later, ready, again⟩ | ⟨error, later, refused, -⟩⟩
    · exact absurd full (Nat.not_le.mpr fits)
    · cases ready.symm.trans room
      rw [same, again]
      rfl
    · cases refused.symm.trans room
  · rw [unmade] at room
    rcases register_steps object (rooted.mapRoots change) with
      ⟨fits, -⟩ | ⟨-, ⟨later, ready, -⟩ | ⟨cause, later, refused, again⟩⟩
    · exact absurd full (Nat.not_le.mpr fits)
    · cases ready.symm.trans room
    · cases refused.symm.trans room
      rw [same, again]
      rfl

end

end HeapM

end Smalltalk

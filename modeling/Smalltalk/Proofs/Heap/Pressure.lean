import Smalltalk.Proofs.Heap.Bookkeeping

namespace Smalltalk

/-! Registering an object when the table is full loses nothing that is needed, and it is
refused only when everything in the table is. -/

namespace Rooted

variable {ρ : Type} [RootSet ρ]

/-- What has to stay while an object is registered: what the roots reach without their
caches, and what the object reaches. -/
def Needs (before : Rooted ρ) (object : HeapObject) : Nat → Prop :=
  before.heap.Reaches
    ((RootSet.values (RootSet.flush before.roots) ++ object.references).filterMap Value.slot?)

/-- How a registration comes to its end: the object has a cell of its own and the last entry
of the table, under the next hash of the sequence, and what is needed is what it was. -/
structure Admits (object : HeapObject) (slot : Nat) (kept : List Nat)
    (before after : Rooted ρ) : Prop where
  table : after.heap.table.toList = kept ++ [slot]
  live : ∀ other, after.heap.Live other ↔ other ∈ kept ∨ other = slot
  unused : slot ∉ kept
  lastHash : after.heap.lastHash = Heap.nextHash before.heap.lastHash
  filled : after.heap.cell? slot = some { object with hash := after.heap.currentHash }
  needed : ∀ other, before.Needs object other →
    other ∈ kept ∧ after.heap.cell? other = before.heap.cell? other

/-- How a registration is refused: the table is full of what is needed, cannot grow, and
comes out with the objects that it had. -/
structure Refuses (object : HeapObject) (error : MemoryError) (before after : Rooted ρ) :
    Prop where
  error : error = .tableFull before.heap.capacity
  limit : before.heap.limit < before.heap.capacity + before.heap.growth
  full : after.heap.size = before.heap.capacity
  table : after.heap.table = before.heap.table
  cell : ∀ slot, after.heap.cell? slot = before.heap.cell? slot
  lastHash : after.heap.lastHash = before.heap.lastHash
  needed : ∀ slot ∈ after.heap.table.toList, before.Needs object slot

/-- A full collection leaves what the roots reach without their caches. -/
theorem live_fullCollect_iff {rooted : Rooted ρ} (tabled : rooted.heap.Tabled) (slot : Nat) :
    rooted.fullCollect.heap.Live slot ↔
      rooted.heap.Reaches
        ((RootSet.values (RootSet.flush rooted.roots)).filterMap Value.slot?) slot := by
  let counted : Heap :=
    { rooted.heap with counts.fullCollections := rooted.heap.counts.fullCollections + 1 }
  have counted_tabled : counted.Tabled := ⟨tabled.nodup, tabled.live, tabled.listed⟩
  have swept := Heap.live_compact_iff counted_tabled 0
    (RootSet.values (RootSet.flush rooted.roots)) slot
  rw [Heap.seeds, List.take_zero, List.append_nil] at swept
  refine swept.trans ⟨fun reached => ?_, fun reached => ?_⟩
  · exact reached.replay fun _ => rfl
  · exact reached.replay fun _ => rfl

/-- Collections that take nothing out of the table change no object. -/
theorem Survives.cell_of_table {before after : Rooted ρ} (survives : before.Survives after)
    (tabled : before.heap.Tabled) (same : after.heap.table = before.heap.table) (slot : Nat) :
    after.heap.cell? slot = before.heap.cell? slot := by
  by_cases live : after.heap.Live slot
  · exact survives.cell slot live
  · have dead : ¬ before.heap.Live slot := by
      intro here
      have listed := tabled.listed slot here
      rw [← same] at listed
      exact live (survives.consistent.live slot listed)
    rw [Heap.not_live_iff.mp live, Heap.not_live_iff.mp dead]

end Rooted

namespace Heap

/-- What goes into the table goes to its end. -/
theorem table_place {heap : Heap} {object : HeapObject} {slot : Nat}
    (named : (heap.place object).1 = .object slot) :
    (heap.place object).2.table = heap.table.push slot := by
  cases free : heap.free with
  | nil =>
    simp only [place, free] at named ⊢
    cases named
    rfl
  | cons first rest =>
    simp only [place, free] at named ⊢
    cases named
    rfl

theorem lastHash_place (heap : Heap) (object : HeapObject) :
    (heap.place object).2.lastHash = heap.lastHash := by
  cases free : heap.free <;> simp only [place, free]

end Heap

namespace HeapM

variable {ρ : Type} [RootSet ρ]

/-- Making room does not move on in the hash sequence. -/
theorem lastHash_makeRoom (request : Nat) (before : Rooted ρ) :
    ((makeRoom request).after before).heap.lastHash = before.heap.lastHash := by
  rcases makeRoom_cases request before with ⟨enough, collected, reclaimed, outcome⟩
  have same := Rooted.reclaim_keeps (fun left => left.heap.lastHash = before.heap.lastHash)
    (fun _ kept => kept) (fun _ kept => (Heap.lastHash_compact _ _ _).trans kept)
    request before.heap.size 0 before.heap.attempts true rfl
  rw [reclaimed] at same
  have swept : collected.fullCollect.heap.lastHash = before.heap.lastHash :=
    (Heap.lastHash_compact _ _ _).trans same
  rcases outcome with ⟨-, ended⟩ | ⟨-, ended⟩ | ⟨-, ⟨-, ended⟩ | ⟨-, ended⟩⟩
  · rw [after_of_ok ended, same]
  · rw [after_of_ok ended, same]
  · rw [after_of_ok ended, swept]
  · rw [after_of_error ended, swept]

omit [RootSet ρ] in
theorem placeFresh_apply (object : HeapObject) (room : Rooted ρ) :
    placeFresh object room =
      let placed := room.heap.advanceHash.place
        { object with hash := room.heap.advanceHash.currentHash }
      .ok placed.1 ⟨placed.2, room.roots⟩ := rfl

variable [LawfulRootSet ρ]

/-- An object that finds its cell after any number of collections, none of which moved on
in the hash sequence, is admitted. -/
theorem placeFresh_admits {object : HeapObject} {value : Value} {before room after : Rooted ρ}
    (survives : Rooted.Survives
      ⟨before.heap, (⟨before.roots, object.references⟩ : PendingRoots ρ)⟩
      ⟨room.heap, ⟨room.roots, object.references⟩⟩)
    (same : room.heap.lastHash = before.heap.lastHash)
    (placed : placeFresh object room = .ok value after) :
    ∃ slot kept, value = .object slot ∧ before.Admits object slot kept after := by
  have consistent : room.heap.Consistent := survives.consistent
  let hash := room.heap.advanceHash.currentHash
  rcases Heap.places_advanceHash consistent { object with hash } with ⟨slot, named, places⟩
  have pushed := Heap.table_place named
  have numbered := Heap.lastHash_place room.heap.advanceHash { object with hash }
  rw [placeFresh_apply] at placed
  change EStateM.Result.ok (room.heap.advanceHash.place { object with hash }).1
    (⟨(room.heap.advanceHash.place { object with hash }).2, room.roots⟩ : Rooted ρ)
      = .ok value after at placed
  generalize room.heap.advanceHash.place { object with hash } = result
    at named places pushed numbered placed
  cases placed
  have listed (other : Nat) : other ∈ room.heap.table.toList ↔ room.heap.Live other :=
    ⟨consistent.live other, consistent.listed other⟩
  refine ⟨slot, room.heap.table.toList, named, ?_⟩
  exact
    { table := by
        rw [pushed, Array.toList_push]
        rfl
      live := by
        intro other
        rw [listed]
        by_cases last : other = slot
        · exact iff_of_true (last ▸ Heap.live_of_cell? places.filled) (.inr last)
        · rw [or_iff_left last, Heap.Live, places.others other last, Heap.Live]
      unused := fun member => places.dead ((listed slot).mp member)
      lastHash := by rw [numbered, Heap.advanceHash, same]
      filled := by rw [places.filled, Heap.currentHash, numbered, ← Heap.currentHash]
      needed := by
        intro other needed
        have live : room.heap.Live other := survives.live_of_reaches needed
        have different : other ≠ slot := fun last => places.dead (last ▸ live)
        refine ⟨(listed other).mpr live, ?_⟩
        exact (places.others other different).trans (survives.cell other live) }

/-- A registration that comes to its end loses nothing that is needed. -/
theorem register_admits {object : HeapObject} {value : Value} {before after : Rooted ρ}
    (consistent : before.heap.Consistent)
    (registered : register object before = .ok value after) :
    ∃ slot kept, value = .object slot ∧ before.Admits object slot kept after := by
  let pending : Rooted (PendingRoots ρ) := ⟨before.heap, ⟨before.roots, object.references⟩⟩
  have survives : pending.Survives ((makeRoom before.heap.growth).after pending) :=
    survives_makeRoom before.heap.growth consistent
  have hash : ((makeRoom before.heap.growth).after pending).heap.lastHash = before.heap.lastHash :=
    lastHash_makeRoom before.heap.growth pending
  rcases register_steps object before with
    ⟨-, same⟩ | ⟨-, ⟨room, made, same⟩ | ⟨error, room, -, same⟩⟩
  · exact placeFresh_admits (Rooted.survives_of_same consistent rfl rfl rfl .refl) rfl
      (same.symm.trans registered)
  · rw [after_of_ok made] at survives hash
    rcases room with ⟨heap, roots, references⟩
    cases survives.flushed.pending.2
    exact placeFresh_admits survives hash (same.symm.trans registered)
  · cases same.symm.trans registered

/-- Room that was not made is missing because everything in the table is needed. -/
theorem makeRoom_refuses {request : Nat} {error : MemoryError} {before left : Rooted ρ}
    (balanced : before.heap.Balanced)
    (refused : makeRoom request before = .error error left) :
    error = .tableFull before.heap.capacity ∧
      before.heap.limit < before.heap.capacity + request ∧
      left.heap.size = before.heap.capacity ∧ left.heap.table = before.heap.table ∧
      ∀ slot ∈ left.heap.table.toList, before.heap.Reaches
        ((RootSet.values (RootSet.flush before.roots)).filterMap Value.slot?) slot := by
  rcases makeRoom_cases request before with ⟨enough, collected, reclaimed, outcome⟩
  have kept := reclaim_balances balanced request before.heap.size 0 before.heap.attempts true
  have survives := Rooted.survives_reclaim request before.heap.size 0 before.heap.attempts true
    balanced.toConsistent
  rw [reclaimed] at kept survives
  dsimp only at kept survives
  rcases kept with ⟨balances, shrinks⟩
  have tabled := balances.balanced.toTabled
  rcases outcome with ⟨-, ended⟩ | ⟨-, ended⟩ | ⟨beyond, ⟨-, ended⟩ | ⟨full, ended⟩⟩
  · cases ended.symm.trans refused
  · cases ended.symm.trans refused
  · cases ended.symm.trans refused
  · cases ended.symm.trans refused
    have swept := shrinks.trans (Rooted.shrinks_fullCollect tabled)
    have sized : collected.fullCollect.heap.size = before.heap.capacity := by
      have fewer := swept.size_le
      have bounded := balanced.size_le_capacity
      have same := swept.capacity
      omega
    refine ⟨by rw [swept.capacity], ?_, sized, ?_, ?_⟩
    · rw [← shrinks.capacity, ← shrinks.limit]
      exact beyond
    · apply Array.toList_inj.mp
      apply swept.entries.eq_of_length_le
      have bounded := balanced.size_le_capacity
      simp only [Heap.size, ← Array.length_toList] at sized bounded
      omega
    · intro slot member
      have live : collected.fullCollect.heap.Live slot :=
        (Rooted.balances_fullCollect balances.balanced).balanced.live slot member
      have reached := (Rooted.live_fullCollect_iff tabled slot).mp live
      rw [survives.flushed.values_flush] at reached
      exact reached.replay fun {slot} within => (survives.cell slot within.live).symm

omit [LawfulRootSet ρ] in
/-- A registration is refused only because the table is full. -/
theorem register_error {object : HeapObject} {error : MemoryError} {before after : Rooted ρ}
    (refused : register object before = .error error after) :
    ∃ capacity, error = .tableFull capacity := by
  rcases register_steps object before with
    ⟨-, same⟩ | ⟨-, ⟨room, -, same⟩ | ⟨cause, room, unmade, same⟩⟩
  · cases same.symm.trans refused
  · cases same.symm.trans refused
  · cases same.symm.trans refused
    let pending : Rooted (PendingRoots ρ) := ⟨before.heap, ⟨before.roots, object.references⟩⟩
    rcases makeRoom_cases before.heap.growth pending with
      ⟨enough, collected, -, ⟨-, ended⟩ | ⟨-, ended⟩ | ⟨-, ⟨-, ended⟩ | ⟨-, ended⟩⟩⟩
    · cases ended.symm.trans unmade
    · cases ended.symm.trans unmade
    · cases ended.symm.trans unmade
    · cases ended.symm.trans unmade
      exact ⟨_, rfl⟩

/-- A registration with roots of any kind either loses nothing that is needed, or is
refused because the table is full of it and cannot grow. -/
theorem register_admits_or_refuses (object : HeapObject) (before : Rooted ρ)
    (balanced : before.heap.Balanced) :
    (∀ value after, register object before = .ok value after →
        ∃ slot kept, value = .object slot ∧ before.Admits object slot kept after) ∧
      ∀ error after, register object before = .error error after →
        before.Refuses object error after := by
  refine ⟨fun _ _ => register_admits balanced.toConsistent, fun error after registered => ?_⟩
  let pending : Rooted (PendingRoots ρ) := ⟨before.heap, ⟨before.roots, object.references⟩⟩
  have survives : pending.Survives ((makeRoom before.heap.growth).after pending) :=
    survives_makeRoom before.heap.growth balanced.toConsistent
  have hash : ((makeRoom before.heap.growth).after pending).heap.lastHash = before.heap.lastHash :=
    lastHash_makeRoom before.heap.growth pending
  rcases register_steps object before with
    ⟨-, same⟩ | ⟨-, ⟨room, -, same⟩ | ⟨error, room, refused, same⟩⟩
  · cases same.symm.trans registered
  · cases same.symm.trans registered
  · cases same.symm.trans registered
    rw [after_of_error refused] at survives hash
    have outcome := makeRoom_refuses (show pending.heap.Balanced from balanced) refused
    rcases outcome with ⟨full, limit, size, table, needed⟩
    exact
      { error := full
        limit
        full := size
        table
        cell := survives.cell_of_table balanced.toTabled table
        lastHash := hash
        needed }

/-- A full table of two objects that cannot grow. The roots hold the first object and the
second only for speed. -/
def crampedRoots : Rooted RootLists :=
  let object : HeapObject := { species := .zero, format := Format.fixed, body := .pointers #[] }
  { heap :=
      { cells := #[some object, some object]
        table := #[0, 1]
        capacity := 2
        limit := 2
        growth := 1
        attempts := 1 }
    roots := { strong := [.object 0], cached := [.object 1] } }

/-- An object that refers to another one. -/
def referringTo (slot : Nat) : HeapObject :=
  { species := .zero, format := Format.fixed, body := .pointers #[.object slot] }

/-- An object that refers to the first one takes the cell of the second one. One that refers
to the second one is refused. -/
theorem register_crampedRoots :
    (∃ after slot kept, register (referringTo 0) crampedRoots = .ok (.object 1) after ∧
        (Value.object 1 = .object slot ∧
          crampedRoots.Admits (referringTo 0) slot kept after)) ∧
      ∃ error after, register (referringTo 1) crampedRoots = .error error after ∧
        crampedRoots.Refuses (referringTo 1) error after := by
  have balanced : crampedRoots.heap.Balanced := by decide +kernel
  have admitted : register (referringTo 0) crampedRoots
      = .ok (.object 1) ((register (referringTo 0)).after crampedRoots) := by rfl
  have refused : register (referringTo 1) crampedRoots
      = .error (.tableFull 2) ((register (referringTo 1)).after crampedRoots) := by rfl
  rcases (register_admits_or_refuses _ _ balanced).1 _ _ admitted with ⟨slot, kept, admits⟩
  exact ⟨⟨_, slot, kept, admitted, admits⟩, _, _, refused,
    (register_admits_or_refuses _ _ balanced).2 _ _ refused⟩

end HeapM

end Smalltalk

import Smalltalk.Heap.Instantiation
import Smalltalk.Proofs.Heap.Compaction

namespace Smalltalk

/-! An object finds its cell after any number of collections and flushes of the
roots. They keep what the object refers to and what the roots reach without the
values that a flush gives up. -/

/-- What a flush gives up, it gives up at once, and it adds nothing. -/
class LawfulRootSet (ρ : Type) [RootSet ρ] : Prop where
  mem_of_mem_flush {roots : ρ} {value : Value} :
    value ∈ RootSet.values (RootSet.flush roots) → value ∈ RootSet.values roots
  values_flush_flush (roots : ρ) :
    RootSet.values (RootSet.flush (RootSet.flush roots)) = RootSet.values (RootSet.flush roots)

instance : LawfulRootSet Unit where
  mem_of_mem_flush member := member
  values_flush_flush _ := rfl

instance : LawfulRootSet (List Value) where
  mem_of_mem_flush member := member
  values_flush_flush _ := rfl

instance : LawfulRootSet RootLists where
  mem_of_mem_flush := by
    intro roots value member
    rcases List.mem_append.mp member with strong | none
    · exact List.mem_append_left _ strong
    · cases none
  values_flush_flush _ := rfl

instance {ρ : Type} [RootSet ρ] [LawfulRootSet ρ] : LawfulRootSet (PendingRoots ρ) where
  mem_of_mem_flush := by
    intro roots value member
    rcases List.mem_append.mp member with held | pending
    · exact List.mem_append_left _ (LawfulRootSet.mem_of_mem_flush held)
    · exact List.mem_append_right _ pending
  values_flush_flush roots :=
    congrArg (· ++ roots.pending) (LawfulRootSet.values_flush_flush roots.roots)

/-- Roots, and the same roots after any number of flushes. -/
inductive Flushed {ρ : Type} [RootSet ρ] (first : ρ) : ρ → Prop
  | refl : Flushed first first
  | flush {last : ρ} (before : Flushed first last) : Flushed first (RootSet.flush last)

namespace Flushed

variable {ρ : Type} [RootSet ρ] {first middle last : ρ}

theorem trans (early : Flushed first middle) (late : Flushed middle last) :
    Flushed first last := by
  induction late with
  | refl => exact early
  | flush _ induction => exact .flush induction

theorem mem_values [LawfulRootSet ρ] (flushed : Flushed first last) {value : Value}
    (member : value ∈ RootSet.values last) : value ∈ RootSet.values first := by
  induction flushed with
  | refl => exact member
  | flush _ induction => exact induction (LawfulRootSet.mem_of_mem_flush member)

theorem values_flush [LawfulRootSet ρ] (flushed : Flushed first last) :
    RootSet.values (RootSet.flush last) = RootSet.values (RootSet.flush first) := by
  induction flushed with
  | refl => rfl
  | flush _ induction => rw [LawfulRootSet.values_flush_flush, induction]

/-- The values that a flush leaves are never given up. -/
theorem mem_of_mem_flush [LawfulRootSet ρ] (flushed : Flushed first last) {value : Value}
    (member : value ∈ RootSet.values (RootSet.flush first)) : value ∈ RootSet.values last := by
  rw [← flushed.values_flush] at member
  exact LawfulRootSet.mem_of_mem_flush member

theorem pending {first last : PendingRoots ρ} (flushed : Flushed first last) :
    Flushed first.roots last.roots ∧ last.pending = first.pending := by
  induction flushed with
  | refl => exact ⟨.refl, rfl⟩
  | flush _ induction => exact ⟨.flush induction.1, induction.2⟩

end Flushed

namespace Rooted

variable {ρ : Type} [RootSet ρ]

/-! ## Collecting any number of times -/

/-- How a heap with its roots comes out of collections: survivors are as they
were, and so is what they and the roots refer to. -/
structure Survives (before after : Rooted ρ) : Prop where
  consistent : after.heap.Consistent
  flushed : Flushed before.roots after.roots
  cell : ∀ slot, after.heap.Live slot → after.heap.cell? slot = before.heap.cell? slot
  closed : ∀ slot object, after.heap.cell? slot = some object →
    ∀ value ∈ object.references, before.heap.Holds value → after.heap.Holds value
  held : ∀ value ∈ after.rootValues, before.heap.Holds value → after.heap.Holds value

theorem survives_compact {rooted : Rooted ρ} (consistent : rooted.heap.Consistent) (start : Nat) :
    Survives rooted (rooted.compact start) where
  consistent := Heap.consistent_compact consistent start _
  flushed := .refl
  cell := by
    intro slot live
    have reached := (Heap.live_compact_iff consistent.toTabled start _ slot).mp live
    exact (Heap.cell?_compact consistent.toTabled start _ slot).trans (if_pos reached)
  closed := by
    intro slot object found value member held
    have reached := (Heap.live_compact_iff consistent.toTabled start _ slot).mp
      (Heap.live_of_cell? found)
    have original : rooted.heap.cell? slot = some object := by
      rw [← found]
      exact ((Heap.cell?_compact consistent.toTabled start _ slot).trans (if_pos reached)).symm
    cases value with
    | small n => trivial
    | object next =>
      exact (Heap.live_compact_iff consistent.toTabled start _ next).mpr
        (.step reached original (Heap.mem_successors_iff.mpr member) held)
  held _ member held := Heap.holds_compact_of_mem_roots consistent.toTabled member held

/-- What is done to the roots and to the numbers of a heap, but not to its cells. -/
theorem survives_of_same {before after : Rooted ρ} (consistent : before.heap.Consistent)
    (cells : after.heap.cells = before.heap.cells) (table : after.heap.table = before.heap.table)
    (free : after.heap.free = before.heap.free) (flushed : Flushed before.roots after.roots) :
    Survives before after := by
  have cell (slot : Nat) : after.heap.cell? slot = before.heap.cell? slot := by
    rw [Heap.cell?, cells, Heap.cell?]
  have live (slot : Nat) : after.heap.Live slot ↔ before.heap.Live slot := by
    rw [Heap.Live, cell, Heap.Live]
  have holds (value : Value) (held : before.heap.Holds value) : after.heap.Holds value := by
    cases value with
    | small n => trivial
    | object slot => exact (live slot).mpr held
  exact
    { consistent := consistent.transfer table free live fun slot empty => cells ▸ empty
      flushed
      cell := fun slot _ => cell slot
      closed := fun _ _ _ value _ held => holds value held
      held := fun value _ held => holds value held }

namespace Survives

variable {first middle last : Rooted ρ}

theorem trans [LawfulRootSet ρ] (early : Survives first middle) (late : Survives middle last) :
    Survives first last where
  consistent := late.consistent
  flushed := early.flushed.trans late.flushed
  cell := by
    intro slot live
    have same := late.cell slot live
    have between : middle.heap.Live slot := by
      rw [Heap.Live, ← same]
      exact live
    rw [same, early.cell slot between]
  closed := by
    intro slot object found value member held
    have between := (late.cell slot (Heap.live_of_cell? found)).symm.trans found
    exact late.closed slot object found value member
      (early.closed slot object between value member held)
  held := by
    intro value member held
    exact late.held value member (early.held value (late.flushed.mem_values member) held)

/-- What the roots reach without their caches survives. -/
theorem live_of_reaches [LawfulRootSet ρ] (survives : Survives first last) {slot : Nat}
    (reached : first.heap.Reaches
      ((RootSet.values (RootSet.flush first.roots)).filterMap Value.slot?) slot) :
    last.heap.Live slot := by
  induction reached with
  | @seed slot member live =>
    rcases List.mem_filterMap.mp member with ⟨value, root, names⟩
    cases value with
    | small n => cases names
    | object other =>
      cases names
      exact survives.held (.object slot) (survives.flushed.mem_of_mem_flush root) live
  | @step slot next object _ found edge live induction =>
    have kept := (survives.cell slot induction).trans found
    exact survives.closed slot object kept (.object next) (Heap.mem_successors_iff.mp edge) live

end Survives

theorem survives_flush {rooted : Rooted ρ} (consistent : rooted.heap.Consistent) :
    Survives rooted rooted.flush :=
  survives_of_same consistent rfl rfl rfl (.flush .refl)

theorem survives_partialCollect [LawfulRootSet ρ] {rooted : Rooted ρ}
    (consistent : rooted.heap.Consistent) : Survives rooted rooted.partialCollect := by
  let counted := rooted.mapHeap fun heap =>
    { heap with counts.partialCollections := heap.counts.partialCollections + 1 }
  have same : Survives rooted counted := survives_of_same consistent rfl rfl rfl .refl
  exact same.trans (survives_compact same.consistent _)

theorem survives_fullCollect [LawfulRootSet ρ] {rooted : Rooted ρ}
    (consistent : rooted.heap.Consistent) : Survives rooted rooted.fullCollect := by
  let counted := rooted.mapHeap fun heap =>
    { heap with counts.fullCollections := heap.counts.fullCollections + 1 }
  have same : Survives rooted counted.flush :=
    survives_of_same consistent rfl rfl rfl (.flush .refl)
  exact same.trans (survives_compact same.consistent 0)

/-- Whatever a flush and a partial collection keep, any number of them keeps. -/
theorem reclaim_keeps (Property : Rooted ρ → Prop)
    (flush : ∀ rooted, Property rooted → Property rooted.flush)
    (collect : ∀ rooted, Property rooted → Property rooted.partialCollect)
    (request initial attempt remaining : Nat) (dirty : Bool) {rooted : Rooted ρ}
    (holds : Property rooted) :
    Property (reclaim request initial attempt remaining dirty rooted).2 := by
  induction remaining generalizing attempt dirty rooted with
  | zero => exact holds
  | succ remaining induction =>
    have flushed : Property (if attempt = flushAttempt then rooted.flush else rooted) := by
      split
      · exact flush rooted holds
      · exact holds
    simp only [reclaim]
    generalize (if attempt = flushAttempt then rooted.flush else rooted) = current at flushed ⊢
    split
    · split
      · exact collect current flushed
      · exact induction _ _ (collect current flushed)
    · exact induction _ _ flushed

theorem survives_reclaim [LawfulRootSet ρ] (request initial attempt remaining : Nat)
    (dirty : Bool) {rooted : Rooted ρ} (consistent : rooted.heap.Consistent) :
    Survives rooted (reclaim request initial attempt remaining dirty rooted).2 :=
  reclaim_keeps (Survives rooted)
    (fun _ kept => kept.trans (survives_flush kept.consistent))
    (fun _ kept => kept.trans (survives_partialCollect kept.consistent))
    request initial attempt remaining dirty (survives_of_same consistent rfl rfl rfl .refl)

theorem flushed_reclaim (request initial attempt remaining : Nat) (dirty : Bool)
    (rooted : Rooted ρ) :
    Flushed rooted.roots (reclaim request initial attempt remaining dirty rooted).2.roots :=
  reclaim_keeps (fun other => Flushed rooted.roots other.roots) (fun _ => .flush) (fun _ => id)
    request initial attempt remaining dirty .refl

end Rooted

/-! ## Placing -/

namespace Heap

/-- Placing an object fills one cell that was empty and touches no other. -/
structure Places (object : HeapObject) (slot : Nat) (before after : Heap) : Prop where
  dead : ¬ before.Live slot
  consistent : after.Consistent
  filled : after.cell? slot = some object
  others : ∀ other, other ≠ slot → after.cell? other = before.cell? other

/-- Whichever cell is taken, the table and the list of free cells stay in order. -/
theorem Places.of_push {object : HeapObject} {slot : Nat} {before after : Heap}
    (consistent : before.Consistent) (dead : ¬ before.Live slot)
    (table : after.table = before.table.push slot)
    (filled : after.cell? slot = some object)
    (others : ∀ other, other ≠ slot → after.cell? other = before.cell? other)
    (free_nodup : after.free.Nodup)
    (free_empty : ∀ free ∈ after.free, after.cells[free]? = some none) :
    Places object slot before after := by
  have alive (other : Nat) : after.Live other ↔ before.Live other ∨ other = slot := by
    by_cases same : other = slot
    · simp [same, Live, filled]
    · simp [same, Live, others other same]
  refine ⟨dead, ⟨⟨?_, ?_, ?_⟩, free_nodup, free_empty⟩, filled, others⟩
  · rw [table, Array.toList_push, List.nodup_append]
    refine ⟨consistent.nodup, by simp, ?_⟩
    intro other listed _ new equal
    rcases equal with rfl
    exact dead (List.mem_singleton.mp new ▸ consistent.live other listed)
  · intro other member
    rw [table, Array.toList_push, List.mem_append, List.mem_singleton] at member
    exact (alive other).mpr (member.imp_left (consistent.live other))
  · intro other live
    rw [table, Array.toList_push, List.mem_append, List.mem_singleton]
    exact ((alive other).mp live).imp_left (consistent.listed other)

theorem places_place {heap : Heap} (consistent : heap.Consistent) (object : HeapObject) :
    ∃ slot, (heap.place object).1 = .object slot ∧
      Places object slot heap (heap.place object).2 := by
  cases free : heap.free with
  | nil =>
    have dead : ¬ heap.Live heap.cells.size := fun live => absurd live.lt_size (by omega)
    refine ⟨heap.cells.size, by simp [place, free], ?_⟩
    apply Places.of_push consistent dead
    · simp [place, free]
    · simp [place, free, cell?]
    · intro other different
      simp [place, free, cell?, Array.getElem?_push, different]
    · simp [place, free]
    · simp [place, free]
  | cons slot rest =>
    have empty := consistent.free_empty slot (by simp [free])
    have unique : (slot :: rest).Nodup := free ▸ consistent.free_nodup
    have dead : ¬ heap.Live slot := by simp [Live, cell?, empty]
    have bounded : slot < heap.cells.size := (Array.getElem?_eq_some_iff.mp empty).1
    refine ⟨slot, by simp [place, free], ?_⟩
    apply Places.of_push consistent dead
    · simp [place, free]
    · simp [place, free, cell?, bounded]
    · intro other different
      simp [place, free, cell?, different.symm]
    · simpa [place, free] using (List.nodup_cons.mp unique).2
    · intro other later
      have remains : other ∈ rest := by simpa [place, free] using later
      have different : slot ≠ other := by
        intro same
        rcases same with rfl
        exact (List.nodup_cons.mp unique).1 remains
      simpa [place, free, different] using consistent.free_empty other (by simp [free, remains])

/-- Moving on in the hash sequence touches no cell. -/
theorem places_advanceHash {heap : Heap} (consistent : heap.Consistent) (object : HeapObject) :
    ∃ slot, (heap.advanceHash.place object).1 = .object slot ∧
      Places object slot heap (heap.advanceHash.place object).2 := by
  have advanced : heap.advanceHash.Consistent :=
    { nodup := consistent.nodup
      live := consistent.live
      listed := consistent.listed
      free_nodup := consistent.free_nodup
      free_empty := consistent.free_empty }
  rcases places_place advanced object with ⟨slot, named, places⟩
  exact ⟨slot, named, places.dead, places.consistent, places.filled, places.others⟩

end Heap

/-! ## Registering -/

namespace Rooted

variable {ρ : Type} [RootSet ρ]

/-- What is pending survives with everything else. -/
theorem Survives.of_pending {before after : Rooted ρ} {pending : List Value}
    (survives : Survives ⟨before.heap, (⟨before.roots, pending⟩ : PendingRoots ρ)⟩
      ⟨after.heap, ⟨after.roots, pending⟩⟩) :
    Survives before after ∧
      ∀ value ∈ pending, before.heap.Holds value → after.heap.Holds value where
  left :=
    { consistent := survives.consistent
      flushed := survives.flushed.pending.1
      cell := survives.cell
      closed := survives.closed
      held := fun value member => survives.held value (List.mem_append_left _ member) }
  right value member := survives.held value (List.mem_append_right _ member)

end Rooted

namespace HeapM

variable {α ρ : Type}

/-- The heap and the roots that a computation leaves, whether or not it succeeds. -/
def after (run : HeapM ρ α) (rooted : Rooted ρ) : Rooted ρ :=
  match run rooted with
  | .ok _ left => left
  | .error _ left => left

theorem after_of_ok {run : HeapM ρ α} {rooted left : Rooted ρ} {result : α}
    (ended : run rooted = .ok result left) : run.after rooted = left := by
  rw [after, ended]

theorem after_of_error {run : HeapM ρ α} {rooted left : Rooted ρ} {error : MemoryError}
    (ended : run rooted = .error error left) : run.after rooted = left := by
  rw [after, ended]

theorem get_apply (before : Rooted ρ) : (get : HeapM ρ (Rooted ρ)) before = .ok before before := rfl

variable [RootSet ρ]

/-- How room is made after collecting: enough became free, or the table grew, or at
its limit a full collection decided. -/
theorem makeRoom_cases (request : Nat) (before : Rooted ρ) :
    ∃ enough collected,
      before.reclaim request before.heap.size 0 before.heap.attempts true = (enough, collected) ∧
      (enough = true ∧ makeRoom request before = .ok () collected ∨
        (collected.heap.capacity + request ≤ collected.heap.limit ∧
          makeRoom request before = .ok () { collected with heap :=
            { collected.heap with
              capacity := collected.heap.capacity + request
              counts.grows := collected.heap.counts.grows + 1 } }) ∨
        (collected.heap.limit < collected.heap.capacity + request ∧
          let swept := collected.fullCollect
          (swept.heap.size < swept.heap.capacity ∧ makeRoom request before = .ok () swept ∨
            swept.heap.capacity ≤ swept.heap.size ∧
              makeRoom request before = .error (.tableFull swept.heap.capacity) swept))) := by
  rcases reclaimed : before.reclaim request before.heap.size 0 before.heap.attempts true with
    ⟨enough, collected⟩
  refine ⟨enough, collected, rfl, ?_⟩
  simp only [makeRoom, reclaimed]
  cases enough with
  | true => exact .inl ⟨rfl, rfl⟩
  | false =>
    right
    by_cases fits : collected.heap.capacity + request ≤ collected.heap.limit
    · have within : ¬ collected.heap.limit < collected.heap.capacity + request := by omega
      exact .inl ⟨fits, by simp [Heap.grow, within]⟩
    · have beyond : collected.heap.limit < collected.heap.capacity + request := by omega
      refine .inr ⟨beyond, ?_⟩
      by_cases room : collected.fullCollect.heap.size < collected.fullCollect.heap.capacity
      · exact .inl ⟨room, by simp [beyond, room]⟩
      · exact .inr ⟨by omega, by simp [beyond, room]⟩

variable [LawfulRootSet ρ]

/-- Collections and growth keep what survives, whether or not room was made. -/
theorem survives_makeRoom (request : Nat) {before : Rooted ρ}
    (consistent : before.heap.Consistent) : before.Survives ((makeRoom request).after before) := by
  rcases makeRoom_cases request before with ⟨enough, collected, reclaimed, outcome⟩
  have survives := Rooted.survives_reclaim request before.heap.size 0 before.heap.attempts true
    consistent
  rw [reclaimed] at survives
  have swept := survives.trans (Rooted.survives_fullCollect survives.consistent)
  rcases outcome with ⟨-, ended⟩ | ⟨-, ended⟩ | ⟨-, ⟨-, ended⟩ | ⟨-, ended⟩⟩
  · rw [after_of_ok ended]
    exact survives
  · rw [after_of_ok ended]
    exact survives.trans (Rooted.survives_of_same survives.consistent rfl rfl rfl .refl)
  · rw [after_of_ok ended]
    exact swept
  · rw [after_of_error ended]
    exact swept

omit [LawfulRootSet ρ] in
/-- A registration makes room if it finds the table full, for which the references of the
object count among the roots, and then puts the object into a cell. -/
theorem register_steps (object : HeapObject) (before : Rooted ρ) :
    let pending : Rooted (PendingRoots ρ) := ⟨before.heap, ⟨before.roots, object.references⟩⟩
    (before.heap.size < before.heap.capacity ∧
        register object before = placeFresh object before) ∨
      before.heap.capacity ≤ before.heap.size ∧
        ((∃ room, makeRoom before.heap.growth pending = .ok () room ∧
            register object before = placeFresh object ⟨room.heap, room.roots.roots⟩) ∨
          ∃ error room, makeRoom before.heap.growth pending = .error error room ∧
            register object before = .error error ⟨room.heap, room.roots.roots⟩) := by
  intro pending
  simp only [register, bind, EStateM.bind, get_apply]
  by_cases full : before.heap.capacity ≤ before.heap.size
  · refine .inr ⟨full, ?_⟩
    rw [if_pos full]
    simp only [EStateM.bind, withPending]
    cases made : makeRoom before.heap.growth pending with
    | ok result room => exact .inl ⟨room, rfl, rfl⟩
    | error error room => exact .inr ⟨error, room, rfl, rfl⟩
  · exact .inl ⟨by omega, by rw [if_neg full]⟩

omit [LawfulRootSet ρ] in
/-- Nothing happens to the roots but that the caches are given up. -/
theorem flushed_makeRoom (request : Nat) (before : Rooted ρ) :
    Flushed before.roots ((makeRoom request).after before).roots := by
  rcases makeRoom_cases request before with ⟨enough, collected, reclaimed, outcome⟩
  have flushed := Rooted.flushed_reclaim request before.heap.size 0 before.heap.attempts true before
  rw [reclaimed] at flushed
  rcases outcome with ⟨-, ended⟩ | ⟨-, ended⟩ | ⟨-, ⟨-, ended⟩ | ⟨-, ended⟩⟩
  · rw [after_of_ok ended]
    exact flushed
  · rw [after_of_ok ended]
    exact flushed
  · rw [after_of_ok ended]
    exact .flush flushed
  · rw [after_of_error ended]
    exact .flush flushed

omit [LawfulRootSet ρ] in
theorem flushed_register {object : HeapObject} {value : Value} {before after : Rooted ρ}
    (registered : register object before = .ok value after) :
    Flushed before.roots after.roots := by
  rcases register_steps object before with
    ⟨-, same⟩ | ⟨-, ⟨room, made, same⟩ | ⟨error, room, -, same⟩⟩
  · cases same.symm.trans registered
    exact .refl
  · have flushed := flushed_makeRoom before.heap.growth
      (⟨before.heap, ⟨before.roots, object.references⟩⟩ : Rooted (PendingRoots ρ))
    rw [after_of_ok made] at flushed
    cases same.symm.trans registered
    exact flushed.pending.1
  · cases same.symm.trans registered

/-- A registration that comes to its end has collected any number of times and
then put the object into a cell. -/
theorem register_cases {object : HeapObject} {value : Value} {before after : Rooted ρ}
    (consistent : before.heap.Consistent)
    (registered : register object before = .ok value after) :
    ∃ heap slot hash, value = .object slot ∧ before.Survives ⟨heap, after.roots⟩ ∧
      (∀ other ∈ object.references, before.heap.Holds other → heap.Holds other) ∧
      Heap.Places { object with hash } slot heap after.heap := by
  have place {room : Rooted ρ} (survives : Rooted.Survives
      ⟨before.heap, (⟨before.roots, object.references⟩ : PendingRoots ρ)⟩
      ⟨room.heap, ⟨room.roots, object.references⟩⟩)
      (placed : placeFresh object room = .ok value after) :
      ∃ heap slot hash, value = .object slot ∧ before.Survives ⟨heap, after.roots⟩ ∧
        (∀ other ∈ object.references, before.heap.Holds other → heap.Holds other) ∧
        Heap.Places { object with hash } slot heap after.heap := by
    rcases Heap.places_advanceHash survives.consistent
      { object with hash := room.heap.advanceHash.currentHash } with ⟨slot, named, places⟩
    cases placed
    exact ⟨room.heap, slot, _, named, survives.of_pending.1, survives.of_pending.2, places⟩
  rcases register_steps object before with
    ⟨-, same⟩ | ⟨-, ⟨room, made, same⟩ | ⟨error, room, -, same⟩⟩
  · exact place (Rooted.survives_of_same consistent rfl rfl rfl .refl) (same ▸ registered)
  · have survives : Rooted.Survives
        ⟨before.heap, (⟨before.roots, object.references⟩ : PendingRoots ρ)⟩ room :=
      after_of_ok made ▸ survives_makeRoom before.heap.growth consistent
    rcases room with ⟨heap, roots, pending⟩
    cases survives.flushed.pending.2
    exact place survives (same.symm.trans registered)
  · cases same.symm.trans registered

end HeapM

end Smalltalk

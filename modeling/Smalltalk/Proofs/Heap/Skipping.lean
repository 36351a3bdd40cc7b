import Smalltalk.Proofs.Heap.Allocation
import Smalltalk.Proofs.Heap.Tenure

namespace Smalltalk

/-! A collection among the young entries that follows another one frees nothing, as long as the
roots hold the same values. So the collections that are left out while room is made make no
difference but in how many there were. -/

namespace Heap

variable {heap : Heap}

/-- The heap after so many more partial collections in which nothing happened. -/
def countPartial (heap : Heap) (count : Nat) : Heap :=
  { heap with counts.partialCollections := heap.counts.partialCollections + count }

@[simp] theorem countPartial_countPartial (heap : Heap) (first second : Nat) :
    (heap.countPartial first).countPartial second = heap.countPartial (first + second) := by
  simp [countPartial, Nat.add_assoc]

theorem partialCollect_eq (heap : Heap) (roots : List Value) :
    heap.partialCollect roots = (heap.countPartial 1).compact heap.tenured roots := rfl

/-! ## Counting makes no difference -/

theorem markFrom_countPartial (heap : Heap) (count budget : Nat) (pending : List Nat)
    (marks : Array Bool) :
    (heap.countPartial count).markFrom budget pending marks
      = heap.markFrom budget pending marks := by
  induction budget generalizing pending marks with
  | zero => rfl
  | succ budget induction =>
    have needs : (heap.countPartial count).needsMark = heap.needsMark := rfl
    simp only [markFrom, needs]
    cases pending.dropWhile fun slot => !heap.needsMark marks slot with
    | nil => rfl
    | cons slot rest => exact induction _ _

theorem foldl_release_countPartial (heap : Heap) (count : Nat) (dead : List Nat) :
    dead.foldl release (heap.countPartial count)
      = (dead.foldl release heap).countPartial count := by
  induction dead generalizing heap with
  | nil => rfl
  | cons first rest induction => exact induction (heap.release first)

theorem compact_countPartial (heap : Heap) (count start : Nat) (roots : List Value) :
    (heap.countPartial count).compact start roots
      = (heap.compact start roots).countPartial count := by
  have marks (seeds : List Nat) :
      (heap.countPartial count).reachable seeds = heap.reachable seeds :=
    markFrom_countPartial heap count _ _ _
  simp only [compact, marks, foldl_release_countPartial]
  rfl

theorem partialCollect_countPartial (heap : Heap) (count : Nat) (roots : List Value) :
    (heap.countPartial count).partialCollect roots
      = (heap.partialCollect roots).countPartial count := by
  calc (heap.countPartial count).partialCollect roots
      = ((heap.countPartial 1).countPartial count).compact heap.tenured roots := by
        simp only [partialCollect_eq, countPartial_countPartial, Nat.add_comm]
        rfl
    _ = (heap.partialCollect roots).countPartial count := compact_countPartial _ _ _ _

/-! ## Collecting once more -/

/-- Where every object is reached, compaction frees none. -/
theorem compact_of_reaches (tabled : heap.Tabled) (start : Nat) (roots : List Value)
    (reached : ∀ slot, heap.Live slot → heap.Reaches (heap.seeds start roots) slot) :
    heap.compact start roots =
      { heap with tenured := min heap.tenured heap.size, cursor := 0 } := by
  have marked : ∀ slot ∈ heap.table.toList.drop (min start heap.size),
      isMarked (heap.reachable (heap.seeds start roots)) slot = true := by
    intro slot member
    rw [isMarked_reachable_iff]
    exact reached slot (tabled.live slot (List.mem_of_mem_drop member))
  have live : (heap.table.toList.drop (min start heap.size)).filter
      (isMarked (heap.reachable (heap.seeds start roots)))
        = heap.table.toList.drop (min start heap.size) := List.filter_eq_self.mpr marked
  have dead : (heap.table.toList.drop (min start heap.size)).filter
      (not ∘ isMarked (heap.reachable (heap.seeds start roots))) = [] := by
    rw [List.filter_eq_nil_iff]
    intro slot member
    simp [marked slot member]
  simp only [compact, List.partition_eq_filter_filter]
  rw [seeds_min, live, dead, List.take_append_drop]
  simp [size]

/-- After a collection everything that is left is reached from the same roots. -/
theorem reaches_of_partialCollect (tabled : heap.Tabled) (roots : List Value) {slot : Nat}
    (live : (heap.partialCollect roots).Live slot) :
    (heap.partialCollect roots).Reaches
      ((heap.partialCollect roots).seeds (heap.partialCollect roots).tenured roots) slot := by
  have counted : (heap.countPartial 1).Tabled := ⟨tabled.nodup, tabled.live, tabled.listed⟩
  have seeds : (heap.partialCollect roots).seeds (heap.partialCollect roots).tenured roots
      = (heap.countPartial 1).seeds heap.tenured roots :=
    congrArg (roots.filterMap Value.slot? ++ ·) (old_partialCollect tabled roots)
  rw [seeds]
  apply Reaches.replay ((live_compact_iff counted heap.tenured roots slot).mp live)
  intro other within
  exact (cell?_compact counted heap.tenured roots other).trans (if_pos within)

/-- A second collection with the same roots is only counted. -/
theorem partialCollect_partialCollect (tabled : heap.Tabled) (roots : List Value) :
    (heap.partialCollect roots).partialCollect roots
      = (heap.partialCollect roots).countPartial 1 := by
  have after := tabled_partialCollect tabled roots
  have bounded : (heap.partialCollect roots).tenured ≤ (heap.partialCollect roots).size :=
    Nat.min_le_right _ _
  calc (heap.partialCollect roots).partialCollect roots
      = ((heap.partialCollect roots).compact (heap.partialCollect roots).tenured
          roots).countPartial 1 := compact_countPartial _ _ _ _
    _ = (heap.partialCollect roots).countPartial 1 := by
        rw [compact_of_reaches after _ roots fun _ => reaches_of_partialCollect tabled roots,
          Nat.min_eq_left bounded]
        rfl

end Heap

namespace Rooted

variable {ρ : Type} [RootSet ρ] {rooted : Rooted ρ}

/-- So many more partial collections in which nothing happened. -/
def countPartial (rooted : Rooted ρ) (count : Nat) : Rooted ρ :=
  rooted.mapHeap (·.countPartial count)

omit [RootSet ρ] in
@[simp] theorem countPartial_zero (rooted : Rooted ρ) : rooted.countPartial 0 = rooted := rfl

omit [RootSet ρ] in
@[simp] theorem countPartial_countPartial (rooted : Rooted ρ) (first second : Nat) :
    (rooted.countPartial first).countPartial second = rooted.countPartial (first + second) :=
  congrArg (Rooted.mk · rooted.roots) (rooted.heap.countPartial_countPartial first second)

theorem partialCollect_countPartial (rooted : Rooted ρ) (count : Nat) :
    (rooted.countPartial count).partialCollect = rooted.partialCollect.countPartial count :=
  congrArg (Rooted.mk · rooted.roots)
    (rooted.heap.partialCollect_countPartial count rooted.rootValues)

theorem fullCollect_countPartial (rooted : Rooted ρ) (count : Nat) :
    (rooted.countPartial count).fullCollect = rooted.fullCollect.countPartial count := by
  let counted : Heap :=
    { rooted.heap with counts.fullCollections := rooted.heap.counts.fullCollections + 1 }
  exact congrArg (Rooted.mk · (RootSet.flush rooted.roots))
    (counted.compact_countPartial count 0 (RootSet.values (RootSet.flush rooted.roots)))

theorem partialCollect_partialCollect (tabled : rooted.heap.Tabled) :
    rooted.partialCollect.partialCollect = rooted.partialCollect.countPartial 1 :=
  congrArg (Rooted.mk · rooted.roots)
    (Heap.partialCollect_partialCollect tabled rooted.rootValues)

/-- Collect partially on every attempt, up to `remaining` times, until `request` entries fewer
than `initial` are left. -/
def reclaimEvery (request initial : Nat) : (attempt remaining : Nat) → Rooted ρ → Bool × Rooted ρ
  | _, 0, rooted => (false, rooted)
  | attempt, remaining + 1, rooted =>
    let collected := (if attempt = flushAttempt then rooted.flush else rooted).partialCollect
    if request ≤ initial - collected.heap.size then
      (true, collected)
    else
      reclaimEvery request initial (attempt + 1) remaining collected

/-- Whether a collection would free nothing, and not enough is free. -/
structure Exhausted (request initial : Nat) (rooted : Rooted ρ) : Prop where
  idle : rooted.partialCollect = rooted.countPartial 1
  short : ¬ request ≤ initial - rooted.heap.size

/-- Whether or not the collections that would free nothing are made, what is left is the same
but for their number. -/
theorem reclaimEvery_countPartial (request initial attempt remaining : Nat) (dirty : Bool)
    (count : Nat) (tabled : rooted.heap.Tabled)
    (exhausted : dirty = false → rooted.Exhausted request initial) :
    ∃ skipped, reclaimEvery request initial attempt remaining (rooted.countPartial count)
      = ((reclaim request initial attempt remaining dirty rooted).1,
        (reclaim request initial attempt remaining dirty rooted).2.countPartial skipped) := by
  induction remaining generalizing attempt dirty count rooted with
  | zero => exact ⟨count, rfl⟩
  | succ remaining induction =>
    simp only [reclaimEvery, reclaim]
    by_cases collects : attempt = flushAttempt ∨ dirty = true
    · -- Both loops collect, and afterwards there is nothing left to collect.
      have flushed : (if attempt = flushAttempt then (rooted.countPartial count).flush
          else rooted.countPartial count)
            = (if attempt = flushAttempt then rooted.flush else rooted).countPartial count := by
        split <;> rfl
      have ready : (if attempt = flushAttempt then rooted.flush else rooted).heap.Tabled := by
        split <;> exact tabled
      rw [flushed, if_pos collects, partialCollect_countPartial]
      generalize (if attempt = flushAttempt then rooted.flush else rooted) = current at ready ⊢
      by_cases enough : request ≤ initial - current.partialCollect.heap.size
      · rw [if_pos enough, if_pos (show request ≤ initial
          - (current.partialCollect.countPartial count).heap.size from enough)]
        exact ⟨count, rfl⟩
      · rw [if_neg enough, if_neg (show ¬ request ≤ initial
          - (current.partialCollect.countPartial count).heap.size from enough)]
        apply induction
        · exact Heap.tabled_partialCollect ready current.rootValues
        · exact fun _ => ⟨partialCollect_partialCollect ready, enough⟩
    · -- One loop collects and frees nothing, the other one goes on at once.
      rcases not_or.mp collects with ⟨keeps, clean⟩
      have known := exhausted (Bool.eq_false_iff.mpr clean)
      rw [if_neg keeps, if_neg collects, if_neg keeps, partialCollect_countPartial, known.idle,
        countPartial_countPartial, if_neg (show ¬ request ≤ initial
          - (rooted.countPartial (1 + count)).heap.size from known.short)]
      exact induction _ _ _ tabled fun _ => known

end Rooted

namespace HeapM

variable {ρ : Type} [RootSet ρ] {α : Type}

/-- What becomes of a request after collecting: if not enough became free, the table grows, and
at its limit a full collection decides. -/
def afterReclaim (request : Nat) :
    Bool × Rooted ρ → EStateM.Result MemoryError (Rooted ρ) Unit
  | (true, collected) => .ok () collected
  | (false, collected) =>
    if collected.heap.limit < collected.heap.capacity + request then
      let swept := collected.fullCollect
      if swept.heap.size < swept.heap.capacity then
        .ok () swept
      else
        .error (.tableFull swept.heap.capacity) swept
    else
      match collected.heap.grow request with
      | .ok heap => .ok () { collected with heap }
      | .error error => .error error collected

theorem makeRoom_eq (request : Nat) (rooted : Rooted ρ) :
    makeRoom request rooted = afterReclaim request
      (rooted.reclaim request rooted.heap.size 0 rooted.heap.attempts true) := rfl

/-- Make room as `makeRoom` does, but collect on every attempt. -/
def makeRoomCollecting (request : Nat) : HeapM ρ Unit := fun rooted =>
  afterReclaim request (rooted.reclaimEvery request rooted.heap.size 0 rooted.heap.attempts)

/-- The same outcome, with so many more partial collections in which nothing happened. -/
def countPartial (count : Nat) :
    EStateM.Result MemoryError (Rooted ρ) α → EStateM.Result MemoryError (Rooted ρ) α
  | .ok result left => .ok result (left.countPartial count)
  | .error error left => .error error (left.countPartial count)

theorem afterReclaim_countPartial (request : Nat) (enough : Bool) (collected : Rooted ρ)
    (count : Nat) :
    afterReclaim request (enough, collected.countPartial count)
      = countPartial count (afterReclaim request (enough, collected)) := by
  cases enough with
  | true => rfl
  | false =>
    have limit : (collected.countPartial count).heap.limit = collected.heap.limit := rfl
    have capacity : (collected.countPartial count).heap.capacity = collected.heap.capacity := rfl
    have grown : (collected.countPartial count).heap.grow request
        = (collected.heap.grow request).map (·.countPartial count) := by
      simp only [Heap.grow, limit, capacity]
      split <;> rfl
    simp only [afterReclaim, limit, capacity, Rooted.fullCollect_countPartial, grown]
    by_cases beyond : collected.heap.limit < collected.heap.capacity + request
    · rw [if_pos beyond, if_pos beyond]
      by_cases room : collected.fullCollect.heap.size < collected.fullCollect.heap.capacity
      · have same : (collected.fullCollect.countPartial count).heap.size
            < (collected.fullCollect.countPartial count).heap.capacity := room
        rw [if_pos room, if_pos same]
        rfl
      · have same : ¬ (collected.fullCollect.countPartial count).heap.size
            < (collected.fullCollect.countPartial count).heap.capacity := room
        rw [if_neg room, if_neg same]
        rfl
    · rw [if_neg beyond, if_neg beyond]
      cases collected.heap.grow request <;> rfl

/-- Leaving out the collections after which nothing was flushed cannot be observed: whatever is
asked for, however often it is attempted and whoever holds the roots, room is made or refused as
if every attempt collected, with the same error, heap and roots, and only the number of partial
collections is another one. -/
theorem makeRoom_skipping_unobserved (request : Nat) (rooted : Rooted ρ)
    (tabled : rooted.heap.Tabled) :
    ∃ skipped, makeRoomCollecting request rooted
      = countPartial skipped (makeRoom request rooted) := by
  rcases Rooted.reclaimEvery_countPartial request rooted.heap.size 0 rooted.heap.attempts true 0
    tabled (fun clean => by cases clean) with ⟨skipped, same⟩
  rw [Rooted.countPartial_zero] at same
  exact ⟨skipped, by rw [makeRoomCollecting, same, afterReclaim_countPartial, makeRoom_eq]⟩

/-- Three objects. The roots hold the first one, and the second one only for speed. -/
def patientRoots : Rooted RootLists :=
  let object : HeapObject := { species := .zero, format := Format.fixed, body := .pointers #[] }
  { heap :=
      { cells := #[some object, some object, some object]
        table := #[0, 1, 2]
        capacity := 3
        limit := 3
        growth := 1
        attempts := 3 }
    roots := { strong := [.object 0], cached := [.object 1] } }

/-- Two free cells take a flush. The second attempt comes before it and is left out. -/
theorem makeRoom_skipping_patientRoots :
    patientRoots.heap.Tabled ∧
      ((makeRoom 2).after patientRoots).heap.free = [1, 2] ∧
      ((makeRoom 2).after patientRoots).heap.counts.partialCollections = 2 ∧
      ((makeRoomCollecting 2).after patientRoots).heap.counts.partialCollections = 3 ∧
      ∃ skipped, makeRoomCollecting 2 patientRoots
        = countPartial skipped (makeRoom 2 patientRoots) := by
  have consistent : patientRoots.heap.Consistent := by decide +kernel
  exact ⟨consistent.toTabled, by decide +kernel, by decide +kernel, by decide +kernel,
    makeRoom_skipping_unobserved 2 patientRoots consistent.toTabled⟩

end HeapM

end Smalltalk

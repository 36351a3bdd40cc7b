import Mathlib.Data.List.Nodup
import Smalltalk.Proofs.Heap.Reachability

namespace Smalltalk

/-! Compaction keeps what the roots and the entries below its start reach, and
nothing else. What is kept is not touched; what is not becomes a free cell. -/

namespace Heap

instance (heap : Heap) (seeds : List Nat) (slot : Nat) : Decidable (heap.Reaches seeds slot) :=
  decidable_of_iff _ (heap.isMarked_reachable_iff seeds slot)

/-- Whether a value is a small integer or refers to an object that is there. -/
def Holds (heap : Heap) : Value → Prop
  | .small _ => True
  | .object slot => heap.Live slot

instance (heap : Heap) (value : Value) : Decidable (heap.Holds value) := by
  cases value <;> unfold Holds <;> infer_instance

@[simp] theorem holds_small (heap : Heap) (n : SmallInt) : heap.Holds (.small n) := trivial

@[simp] theorem holds_object (heap : Heap) (slot : Nat) :
    heap.Holds (.object slot) ↔ heap.Live slot := Iff.rfl

/-- No object of the heap refers to a cell without an object. -/
def Closed (heap : Heap) : Prop :=
  ∀ slot object, heap.cell? slot = some object → ∀ value ∈ object.references, heap.Holds value

/-- The live objects are the entries of the table, each listed once. -/
structure Tabled (heap : Heap) : Prop where
  nodup : heap.table.toList.Nodup
  live : ∀ slot ∈ heap.table.toList, heap.Live slot
  listed : ∀ slot, heap.Live slot → slot ∈ heap.table.toList

/-- The table lists the live objects and the free list only empty cells, each of
them once. -/
structure Consistent (heap : Heap) : Prop extends heap.Tabled where
  free_nodup : heap.free.Nodup
  free_empty : ∀ slot ∈ heap.free, heap.cells[slot]? = some none

instance (heap : Heap) : Decidable heap.Closed :=
  decidable_of_iff (∀ slot < heap.cells.size, ∀ object ∈ heap.cell? slot,
    ∀ value ∈ object.references, heap.Holds value) <| by
      constructor
      · exact fun bounded slot object found =>
          bounded slot (live_of_cell? found).lt_size object found
      · exact fun closed slot _ object found => closed slot object found

instance (heap : Heap) : Decidable heap.Consistent :=
  decidable_of_iff (heap.table.toList.Nodup ∧ (∀ slot ∈ heap.table.toList, heap.Live slot) ∧
    (∀ slot < heap.cells.size, heap.Live slot → slot ∈ heap.table.toList) ∧
    heap.free.Nodup ∧ ∀ slot ∈ heap.free, heap.cells[slot]? = some none) <| by
      constructor
      · intro ended
        rcases ended with ⟨nodup, live, listed, free, empty⟩
        exact ⟨⟨nodup, live, fun slot alive => listed slot alive.lt_size alive⟩, free, empty⟩
      · intro ended
        rcases ended with ⟨⟨nodup, live, listed⟩, free, empty⟩
        exact ⟨nodup, live, fun slot _ => listed slot, free, empty⟩

/-- What changes objects but neither makes nor frees any keeps a heap
consistent. -/
theorem Consistent.transfer {before after : Heap} (consistent : before.Consistent)
    (table : after.table = before.table) (free : after.free = before.free)
    (live : ∀ slot, after.Live slot ↔ before.Live slot)
    (empty : ∀ slot : Nat, before.cells[slot]? = some none → after.cells[slot]? = some none) :
    after.Consistent := by
  refine ⟨⟨?_, ?_, ?_⟩, ?_, ?_⟩
  · rw [table]
    exact consistent.nodup
  · intro slot member
    rw [table] at member
    exact (live slot).mpr (consistent.live slot member)
  · intro slot alive
    rw [table]
    exact consistent.listed slot ((live slot).mp alive)
  · rw [free]
    exact consistent.free_nodup
  · intro slot member
    rw [free] at member
    exact empty slot (consistent.free_empty slot member)

/-- Where a collection that starts at a table position begins to mark. -/
def seeds (heap : Heap) (start : Nat) (roots : List Value) : List Nat :=
  roots.filterMap Value.slot? ++ heap.table.toList.take start

theorem mem_successors_iff {object : HeapObject} {next : Nat} :
    next ∈ object.successors ↔ Value.object next ∈ object.references := by
  simp only [HeapObject.successors, List.mem_filterMap]
  constructor
  · intro ended
    rcases ended with ⟨value, member, found⟩
    cases value with
    | small n => cases found
    | object slot =>
      cases found
      exact member
  · exact fun member => ⟨_, member, rfl⟩

/-! ## Releasing cells -/

theorem cells_foldl_release (heap : Heap) (dead : List Nat) (slot : Nat) :
    (dead.foldl release heap).cells[slot]? =
      if slot ∈ dead ∧ slot < heap.cells.size then some none else heap.cells[slot]? := by
  induction dead generalizing heap with
  | nil => simp
  | cons first rest induction =>
    rw [List.foldl_cons, induction]
    have sized : (heap.release first).cells.size = heap.cells.size := by simp [release]
    by_cases inside : slot < heap.cells.size
    · by_cases later : slot ∈ rest
      · simp [later, inside, sized]
      · by_cases same : first = slot
        · subst same
          simp [later, inside, release]
        · have different : slot ≠ first := fun equal => same equal.symm
          simp [later, inside, release, same, different]
    · simp [inside, sized]

theorem free_foldl_release (heap : Heap) (dead : List Nat) :
    (dead.foldl release heap).free = dead.reverse ++ heap.free := by
  induction dead generalizing heap with
  | nil => rfl
  | cons first rest induction => simp [induction, release]

/-! ## What compaction keeps -/

/-- A start past the end of the table stands for its end. -/
theorem seeds_min (heap : Heap) (start : Nat) (roots : List Value) :
    roots.filterMap Value.slot? ++ heap.table.toList.take (min start heap.size)
      = heap.seeds start roots := by
  simp [seeds, size]

section

variable {heap : Heap} (tabled : heap.Tabled) (start : Nat) (roots : List Value)

include tabled

/-- An entry below the start is its own seed. -/
theorem reaches_of_mem_take {slot : Nat} (member : slot ∈ heap.table.toList.take start) :
    heap.Reaches (heap.seeds start roots) slot :=
  .seed (List.mem_append_right _ member) (tabled.live slot (List.mem_of_mem_take member))

/-- The entries that compaction frees, in table order. -/
theorem mem_dead_iff (slot : Nat) :
    slot ∈ ((heap.table.toList.drop (min start heap.size)).partition
        (isMarked (heap.reachable (heap.seeds start roots)))).2 ↔
      heap.Live slot ∧ ¬ heap.Reaches (heap.seeds start roots) slot := by
  simp only [List.partition_eq_filter_filter, List.mem_filter, Function.comp,
    Bool.not_eq_true', Bool.eq_false_iff, ne_eq, isMarked_reachable_iff]
  constructor
  · intro ended
    rcases ended with ⟨member, unreached⟩
    exact ⟨tabled.live slot (List.mem_of_mem_drop member), unreached⟩
  · intro ended
    rcases ended with ⟨live, unreached⟩
    refine ⟨?_, unreached⟩
    have listed := tabled.listed slot live
    rw [← List.take_append_drop (min start heap.size) heap.table.toList,
      List.mem_append] at listed
    refine listed.resolve_left fun early => unreached ?_
    exact reaches_of_mem_take tabled start roots
      (List.take_subset_take_left _ (Nat.min_le_left _ _) early)

theorem cells_compact (slot : Nat) :
    (heap.compact start roots).cells[slot]? =
      if heap.Live slot ∧ ¬ heap.Reaches (heap.seeds start roots) slot then some none
      else heap.cells[slot]? := by
  simp only [compact]
  rw [seeds_min, cells_foldl_release]
  refine if_congr ?_ rfl rfl
  rw [mem_dead_iff tabled start roots]
  exact ⟨fun freed => freed.1, fun freed => ⟨freed, freed.1.lt_size⟩⟩

theorem cell?_compact (slot : Nat) :
    (heap.compact start roots).cell? slot =
      if heap.Reaches (heap.seeds start roots) slot then heap.cell? slot else none := by
  rw [cell?, cells_compact tabled start roots]
  by_cases reached : heap.Reaches (heap.seeds start roots) slot
  · simp [reached, cell?]
  · by_cases live : heap.Live slot
    · simp [reached, live]
    · have empty : heap.cells[slot]?.join = none := not_live_iff.mp live
      simp [reached, live, empty]

theorem live_compact_iff (slot : Nat) :
    (heap.compact start roots).Live slot ↔ heap.Reaches (heap.seeds start roots) slot := by
  rw [Live, cell?_compact tabled start roots]
  constructor
  · intro live
    by_contra unreached
    simp [unreached] at live
  · intro reached
    rw [if_pos reached]
    exact reached.live

theorem table_compact :
    (heap.compact start roots).table.toList =
      heap.table.toList.filter fun slot => heap.Reaches (heap.seeds start roots) slot := by
  have marked : (fun slot => decide (heap.Reaches (heap.seeds start roots) slot))
      = isMarked (heap.reachable (heap.seeds start roots)) := by
    funext slot
    rw [Bool.eq_iff_iff, isMarked_reachable_iff, decide_eq_true_iff]
  have early : (heap.table.toList.take (min start heap.size)).filter
      (isMarked (heap.reachable (heap.seeds start roots)))
      = heap.table.toList.take (min start heap.size) := by
    rw [List.filter_eq_self]
    intro slot member
    rw [isMarked_reachable_iff]
    exact reaches_of_mem_take tabled start roots
      (List.take_subset_take_left _ (Nat.min_le_left _ _) member)
  have split := List.take_append_drop (min start heap.size) heap.table.toList
  simp only [compact, List.partition_eq_filter_filter]
  rw [seeds_min, marked]
  calc _ = (heap.table.toList.take (min start heap.size)).filter
          (isMarked (heap.reachable (heap.seeds start roots)))
        ++ (heap.table.toList.drop (min start heap.size)).filter
          (isMarked (heap.reachable (heap.seeds start roots))) := by rw [early]
    _ = _ := by rw [← List.filter_append, split]

theorem mem_free_compact_iff (slot : Nat) :
    slot ∈ (heap.compact start roots).free ↔
      (heap.Live slot ∧ ¬ heap.Reaches (heap.seeds start roots) slot) ∨ slot ∈ heap.free := by
  simp only [compact]
  rw [seeds_min, free_foldl_release, List.mem_append, List.mem_reverse,
    mem_dead_iff tabled start roots]

theorem tabled_compact : (heap.compact start roots).Tabled where
  nodup := by
    rw [table_compact tabled]
    exact tabled.nodup.filter _
  live := by
    intro slot member
    rw [table_compact tabled, List.mem_filter, decide_eq_true_iff] at member
    exact (live_compact_iff tabled start roots slot).mpr member.2
  listed := by
    intro slot live
    have reached := (live_compact_iff tabled start roots slot).mp live
    rw [table_compact tabled, List.mem_filter, decide_eq_true_iff]
    exact ⟨tabled.listed slot reached.live, reached⟩

end

theorem consistent_compact {heap : Heap} (consistent : heap.Consistent) (start : Nat)
    (roots : List Value) : (heap.compact start roots).Consistent where
  toTabled := tabled_compact consistent.toTabled start roots
  free_nodup := by
    simp only [compact]
    rw [seeds_min, free_foldl_release, List.nodup_append]
    refine ⟨?_, consistent.free_nodup, ?_⟩
    · rw [List.nodup_reverse, List.partition_eq_filter_filter]
      exact (consistent.nodup.sublist (List.drop_sublist _ _)).filter _
    · intro slot dead _ free same
      rcases same with rfl
      rw [List.mem_reverse, mem_dead_iff consistent.toTabled start roots] at dead
      have empty := consistent.free_empty slot free
      simp [Live, cell?, empty] at dead
  free_empty := by
    intro slot member
    rw [mem_free_compact_iff consistent.toTabled] at member
    rw [cells_compact consistent.toTabled]
    by_cases freed : heap.Live slot ∧ ¬ heap.Reaches (heap.seeds start roots) slot
    · exact if_pos freed
    · rw [if_neg freed]
      exact consistent.free_empty slot (member.resolve_left freed)

/-- What a kept object refers to is kept, so no reference is left without its
object. -/
theorem closed_compact {heap : Heap} (tabled : heap.Tabled) (closed : heap.Closed) (start : Nat)
    (roots : List Value) : (heap.compact start roots).Closed := by
  intro slot object found value member
  have reached : heap.Reaches (heap.seeds start roots) slot :=
    (live_compact_iff tabled start roots slot).mp (live_of_cell? found)
  rw [cell?_compact tabled, if_pos reached] at found
  cases value with
  | small n => trivial
  | object next =>
    have live : heap.Live next := closed slot object found (.object next) member
    exact (live_compact_iff tabled start roots next).mpr
      (.step reached found (mem_successors_iff.mpr member) live)

theorem holds_compact_of_mem_roots {heap : Heap} (tabled : heap.Tabled) {start : Nat}
    {roots : List Value} {value : Value} (member : value ∈ roots) (held : heap.Holds value) :
    (heap.compact start roots).Holds value := by
  cases value with
  | small n => trivial
  | object slot =>
    refine (live_compact_iff tabled start roots slot).mpr (.seed ?_ held)
    exact List.mem_append_left _ (List.mem_filterMap.mpr ⟨_, member, rfl⟩)

end Heap

namespace Rooted

/-- Compaction is exact: the table keeps, in its order, the entries that the
roots or the entries below the start reach, these stay as they were, every other
object leaves a free cell, and no reference that was sound comes to name one. -/
theorem compact_keeps_exactly_the_reachable {ρ : Type} [RootSet ρ] (rooted : Rooted ρ)
    (start : Nat) (tabled : rooted.heap.Tabled) :
    let heap := rooted.heap
    let swept := (rooted.compact start).heap
    let Kept := heap.Reaches (heap.seeds start rooted.rootValues)
    (∀ slot ∈ heap.table.toList.take start, Kept slot) ∧
      swept.table.toList = heap.table.toList.filter (fun slot => Kept slot) ∧
      (∀ slot, swept.Live slot ↔ Kept slot) ∧
      (∀ slot, Kept slot → swept.cell? slot = heap.cell? slot) ∧
      (∀ slot, heap.Live slot → ¬ Kept slot → swept.cells[slot]? = some none ∧ slot ∈ swept.free) ∧
      ((∀ value ∈ rooted.rootValues, heap.Holds value) → heap.Closed →
        (∀ value ∈ (rooted.compact start).rootValues, swept.Holds value) ∧ swept.Closed) := by
  intro heap swept Kept
  refine ⟨?_, ?_, ?_, ?_, ?_, ?_⟩
  · exact fun slot member => Heap.reaches_of_mem_take tabled start _ member
  · exact Heap.table_compact tabled start _
  · exact Heap.live_compact_iff tabled start _
  · intro slot kept
    exact (Heap.cell?_compact tabled start _ slot).trans (if_pos kept)
  · intro slot live freed
    exact ⟨(Heap.cells_compact tabled start _ slot).trans (if_pos ⟨live, freed⟩),
      (Heap.mem_free_compact_iff tabled start _ slot).mpr (.inl ⟨live, freed⟩)⟩
  · intro held closed
    exact ⟨fun value member => Heap.holds_compact_of_mem_roots tabled member (held value member),
      Heap.closed_compact tabled closed start _⟩

/-- Six objects. Number one and two refer to each other and are reached from
number zero, number three stands below a start of one and refers to number four,
and number five refers to nobody but itself. -/
def sampleGraph : Rooted RootLists :=
  let node (references : Array Value) : Option HeapObject :=
    some { species := .object 0, format := 1, body := .pointers references }
  { heap :=
      { cells := #[node #[.object 1], node #[.object 2], node #[.object 1], node #[.object 4],
          node #[], node #[.object 5]]
        table := #[3, 0, 1, 2, 4, 5]
        capacity := 6
        limit := 6
        growth := 1
        attempts := 1 }
    roots := { strong := [.object 0] } }

/-- In the sample the cycle survives with its references, and so does what the
entry below the start refers to; the object that only refers to itself is freed. -/
theorem compact_sampleGraph :
    sampleGraph.heap.Tabled ∧ (sampleGraph.compact 1).heap.table.toList = [3, 0, 1, 2, 4] ∧
      (sampleGraph.compact 1).heap.cells[5]? = some none := by
  have tabled : sampleGraph.heap.Tabled := by
    refine ⟨by decide, by decide, fun slot live => ?_⟩
    have bounded : slot < 6 := live.lt_size
    have all : ∀ slot < 6, slot ∈ sampleGraph.heap.table.toList := by decide
    exact all slot bounded
  rcases compact_keeps_exactly_the_reachable sampleGraph 1 tabled with ⟨-, table, -, -, freed, -⟩
  refine ⟨tabled, ?_, ?_⟩
  · rw [table]
    decide
  · exact (freed 5 (by decide) (by decide)).1

end Rooted

end Smalltalk

import Smalltalk.Proofs.Heap.Access
import Smalltalk.Proofs.Heap.Allocation

namespace Smalltalk

/-! The cells, the list of free cells and the table say the same about which objects
there are, and the boundaries of the table are in order. Collections, growth and
registrations keep that, even those that find no room. -/

/-- An accepted configuration can grow its table and starts it within the limit. -/
theorem Config.sizes_of_validate {config : Config} (valid : config.validate = .ok ()) :
    0 < config.tableGrowSize ∧ config.tableSize ≤ config.tableMaxSize := by
  simp only [validate] at valid
  repeat' split at valid
  all_goals cases valid
  omega

namespace Heap

/-- The table lists the live objects and the free list the empty cells, each of them
once, and the table stays within its boundaries. -/
structure Balanced (heap : Heap) : Prop extends heap.Consistent where
  free_listed : ∀ slot : Nat, heap.cells[slot]? = some none → slot ∈ heap.free
  tenured_le_size : heap.tenured ≤ heap.size
  size_le_capacity : heap.size ≤ heap.capacity
  capacity_le_limit : heap.capacity ≤ heap.limit
  growth_pos : 0 < heap.growth

instance (heap : Heap) : Decidable heap.Balanced :=
  decidable_of_iff
    (heap.Consistent ∧
      (∀ slot < heap.cells.size, heap.cells[slot]? = some none → slot ∈ heap.free) ∧
      heap.tenured ≤ heap.size ∧ heap.size ≤ heap.capacity ∧ heap.capacity ≤ heap.limit ∧
      0 < heap.growth) <| by
    constructor
    · intro holds
      rcases holds with ⟨consistent, listed, tenured, size, capacity, growth⟩
      refine ⟨consistent, fun slot empty => listed slot ?_ empty, tenured, size, capacity, growth⟩
      exact (Array.getElem?_eq_some_iff.mp empty).1
    · intro balanced
      exact ⟨balanced.toConsistent, fun slot _ => balanced.free_listed slot,
        balanced.tenured_le_size, balanced.size_le_capacity, balanced.capacity_le_limit,
        balanced.growth_pos⟩

/-- The heap comes out balanced, with the sizes that it was made with. -/
structure Balances (before after : Heap) : Prop where
  balanced : after.Balanced
  limit : after.limit = before.limit
  growth : after.growth = before.growth

variable {heap before middle after : Heap}

theorem Balanced.balances (balanced : heap.Balanced) : heap.Balances heap :=
  ⟨balanced, rfl, rfl⟩

theorem Balances.trans (early : before.Balances middle) (late : middle.Balances after) :
    before.Balances after :=
  ⟨late.balanced, late.limit.trans early.limit, late.growth.trans early.growth⟩

/-- What touches neither the table nor the free list, and neither fills nor empties a
cell. -/
theorem Balanced.balances_of_frame (balanced : before.Balanced)
    (table : after.table = before.table) (free : after.free = before.free)
    (live : ∀ slot, after.Live slot ↔ before.Live slot)
    (empty : ∀ slot : Nat, after.cells[slot]? = some none ↔ before.cells[slot]? = some none)
    (tenured : after.tenured ≤ before.size) (capacity : after.capacity = before.capacity)
    (limit : after.limit = before.limit) (growth : after.growth = before.growth) :
    before.Balances after where
  limit := limit
  growth := growth
  balanced :=
    { toConsistent := balanced.toConsistent.transfer table free live fun slot => (empty slot).mpr
      free_listed := fun slot unused =>
        free ▸ balanced.free_listed slot ((empty slot).mp unused)
      tenured_le_size := by
        rw [size, table]
        exact tenured
      size_le_capacity := by
        rw [size, table, capacity]
        exact balanced.size_le_capacity
      capacity_le_limit := by
        rw [capacity, limit]
        exact balanced.capacity_le_limit
      growth_pos := growth ▸ balanced.growth_pos }

/-- Changing an object makes none and frees none. -/
theorem balances_update (balanced : heap.Balanced) (value : Value)
    (change : HeapObject → HeapObject) : heap.Balances (heap.update value change) := by
  cases value with
  | small n => exact balanced.balances
  | object slot =>
    refine balanced.balances_of_frame rfl rfl (live_update_iff (.object slot) change) ?_
      balanced.tenured_le_size rfl rfl rfl
    intro other
    simp only [update, updateCell, Array.getElem?_modify]
    split
    · cases heap.cells[other]? <;> simp
    · rfl

theorem balanced_ofConfig {config : Config} (valid : config.validate = .ok ()) :
    (ofConfig config).Balanced := by
  rcases Config.sizes_of_validate valid with ⟨growth, capacity⟩
  have unused (slot : Nat) : (ofConfig config).cell? slot = none := rfl
  exact
    { nodup := List.nodup_nil
      live := fun _ member => absurd member List.not_mem_nil
      listed := fun slot live => by simp [Live, unused] at live
      free_nodup := List.nodup_nil
      free_empty := fun _ member => absurd member List.not_mem_nil
      free_listed := fun _ empty => by simp [ofConfig] at empty
      tenured_le_size := Nat.zero_le _
      size_le_capacity := Nat.zero_le _
      capacity_le_limit := capacity
      growth_pos := growth }

/-! ## Collecting -/

/-- Releasing cells changes the cells and the free list alone. -/
theorem foldl_release_eq (heap : Heap) (dead : List Nat) :
    dead.foldl release heap =
      { heap with
        cells := (dead.foldl release heap).cells
        free := dead.reverse ++ heap.free } := by
  induction dead generalizing heap with
  | nil => rfl
  | cons first rest induction =>
    rw [List.foldl_cons, induction]
    simp [release]

/-- A collection only takes entries out of the table. -/
structure Shrinks (before after : Heap) : Prop where
  entries : after.table.toList.Sublist before.table.toList
  tenured_le : after.tenured ≤ before.tenured
  capacity : after.capacity = before.capacity
  limit : after.limit = before.limit
  growth : after.growth = before.growth
  lastHash : after.lastHash = before.lastHash

namespace Shrinks

theorem refl (heap : Heap) : heap.Shrinks heap := ⟨.refl _, Nat.le_refl _, rfl, rfl, rfl, rfl⟩

theorem trans (early : before.Shrinks middle) (late : middle.Shrinks after) :
    before.Shrinks after where
  entries := late.entries.trans early.entries
  tenured_le := late.tenured_le.trans early.tenured_le
  capacity := late.capacity.trans early.capacity
  limit := late.limit.trans early.limit
  growth := late.growth.trans early.growth
  lastHash := late.lastHash.trans early.lastHash

theorem size_le (shrinks : before.Shrinks after) : after.size ≤ before.size := by
  simpa [size] using shrinks.entries.length_le

end Shrinks

theorem lastHash_compact (heap : Heap) (start : Nat) (roots : List Value) :
    (heap.compact start roots).lastHash = heap.lastHash := by
  simp only [compact]
  rw [foldl_release_eq]

theorem shrinks_compact (tabled : heap.Tabled) (start : Nat) (roots : List Value) :
    heap.Shrinks (heap.compact start roots) where
  entries := by
    rw [table_compact tabled]
    exact List.filter_sublist
  tenured_le := Nat.min_le_left _ _
  capacity := by
    simp only [compact]
    rw [foldl_release_eq]
  limit := by
    simp only [compact]
    rw [foldl_release_eq]
  growth := by
    simp only [compact]
    rw [foldl_release_eq]
  lastHash := lastHash_compact heap start roots

theorem balances_compact (balanced : heap.Balanced) (start : Nat) (roots : List Value) :
    heap.Balances (heap.compact start roots) := by
  have shrinks := shrinks_compact balanced.toTabled start roots
  refine ⟨?_, shrinks.limit, shrinks.growth⟩
  exact
    { toConsistent := consistent_compact balanced.toConsistent start roots
      free_listed := by
        intro slot empty
        rw [mem_free_compact_iff balanced.toTabled]
        rw [cells_compact balanced.toTabled] at empty
        split at empty
        · exact .inl ‹_›
        · exact .inr (balanced.free_listed slot empty)
      tenured_le_size := Nat.min_le_right _ _
      size_le_capacity := by
        rw [shrinks.capacity]
        exact shrinks.size_le.trans balanced.size_le_capacity
      capacity_le_limit := by
        rw [shrinks.capacity, shrinks.limit]
        exact balanced.capacity_le_limit
      growth_pos := shrinks.growth ▸ balanced.growth_pos }

end Heap

namespace Rooted

variable {ρ : Type} [RootSet ρ] {rooted : Rooted ρ}

theorem balances_partialCollect (balanced : rooted.heap.Balanced) :
    rooted.heap.Balances rooted.partialCollect.heap := by
  let counted : Heap :=
    { rooted.heap with counts.partialCollections := rooted.heap.counts.partialCollections + 1 }
  have same : rooted.heap.Balances counted :=
    balanced.balances_of_frame rfl rfl (fun _ => .rfl) (fun _ => .rfl) balanced.tenured_le_size
      rfl rfl rfl
  exact same.trans (Heap.balances_compact same.balanced _ _)

theorem balances_fullCollect (balanced : rooted.heap.Balanced) :
    rooted.heap.Balances rooted.fullCollect.heap := by
  let counted : Heap :=
    { rooted.heap with counts.fullCollections := rooted.heap.counts.fullCollections + 1 }
  have same : rooted.heap.Balances counted :=
    balanced.balances_of_frame rfl rfl (fun _ => .rfl) (fun _ => .rfl) balanced.tenured_le_size
      rfl rfl rfl
  exact same.trans (Heap.balances_compact same.balanced _ _)

theorem shrinks_partialCollect (tabled : rooted.heap.Tabled) :
    rooted.heap.Shrinks rooted.partialCollect.heap := by
  let counted : Heap :=
    { rooted.heap with counts.partialCollections := rooted.heap.counts.partialCollections + 1 }
  have same : rooted.heap.Shrinks counted := ⟨.refl _, Nat.le_refl _, rfl, rfl, rfl, rfl⟩
  have counted_tabled : counted.Tabled := ⟨tabled.nodup, tabled.live, tabled.listed⟩
  exact same.trans (Heap.shrinks_compact counted_tabled _ _)

theorem shrinks_fullCollect (tabled : rooted.heap.Tabled) :
    rooted.heap.Shrinks rooted.fullCollect.heap := by
  let counted : Heap :=
    { rooted.heap with counts.fullCollections := rooted.heap.counts.fullCollections + 1 }
  have same : rooted.heap.Shrinks counted := ⟨.refl _, Nat.le_refl _, rfl, rfl, rfl, rfl⟩
  have counted_tabled : counted.Tabled := ⟨tabled.nodup, tabled.live, tabled.listed⟩
  exact same.trans (Heap.shrinks_compact counted_tabled _ _)

/-! ## Making room -/

/-- When collections have freed enough, that many entries are missing. -/
theorem reclaim_enough (request initial attempt remaining : Nat) (dirty : Bool)
    (enough : (reclaim request initial attempt remaining dirty rooted).1 = true) :
    request ≤ initial - (reclaim request initial attempt remaining dirty rooted).2.heap.size := by
  induction remaining generalizing attempt dirty rooted with
  | zero => cases enough
  | succ remaining induction =>
    simp only [reclaim] at enough ⊢
    generalize (if attempt = flushAttempt then rooted.flush else rooted) = current at enough ⊢
    by_cases collects : attempt = flushAttempt ∨ dirty
    · rw [if_pos collects] at enough ⊢
      by_cases freed : request ≤ initial - current.partialCollect.heap.size
      · rw [if_pos freed]
        exact freed
      · rw [if_neg freed] at enough ⊢
        exact induction _ _ enough
    · rw [if_neg collects] at enough ⊢
      exact induction _ _ enough

end Rooted

namespace HeapM

variable {α β ρ : Type}

/-- Asking the heap changes nothing, and an answer that it does not have ends the
computation. -/
theorem after_read {query : Heap → Except MemoryError α} {next : α → HeapM ρ β}
    {rooted : Rooted ρ} :
    (read query >>= next).after rooted = rooted ∨
      ∃ result, (read query >>= next).after rooted = (next result).after rooted := by
  cases found : query rooted.heap with
  | ok result =>
    have readable : (read query : HeapM ρ α) rooted = .ok result rooted := by
      simp only [read, bind, EStateM.bind, get_apply, found]
      rfl
    refine .inr ⟨result, ?_⟩
    simp only [after, bind, EStateM.bind, readable]
  | error error =>
    have unreadable : (read query : HeapM ρ α) rooted = .error error rooted := by
      simp only [read, bind, EStateM.bind, get_apply, found]
      rfl
    refine .inl ?_
    simp only [after, bind, EStateM.bind, unreadable]

variable [RootSet ρ]

/-- Collecting any number of times keeps a heap balanced and only takes entries out. -/
theorem reclaim_balances {rooted : Rooted ρ} (balanced : rooted.heap.Balanced)
    (request initial attempt remaining : Nat) (dirty : Bool) :
    let reclaimed := (rooted.reclaim request initial attempt remaining dirty).2
    rooted.heap.Balances reclaimed.heap ∧ rooted.heap.Shrinks reclaimed.heap :=
  Rooted.reclaim_keeps
    (fun left => rooted.heap.Balances left.heap ∧ rooted.heap.Shrinks left.heap)
    (fun _ kept => kept)
    (fun _ kept =>
      ⟨kept.1.trans (Rooted.balances_partialCollect kept.1.balanced),
        kept.2.trans (Rooted.shrinks_partialCollect kept.1.balanced.toTabled)⟩)
    request initial attempt remaining dirty ⟨balanced.balances, .refl _⟩

/-- A heap stays balanced while room is made, and then has the room. -/
theorem makeRoom_balances (request : Nat) (rooted : Rooted ρ) (balanced : rooted.heap.Balanced) :
    rooted.heap.Balances ((makeRoom request).after rooted).heap ∧
      ∀ left, 0 < request → makeRoom request rooted = .ok () left →
        left.heap.size < left.heap.capacity := by
  rcases makeRoom_cases request rooted with ⟨enough, collected, reclaimed, outcome⟩
  have kept := reclaim_balances balanced request rooted.heap.size 0 rooted.heap.attempts true
  rw [reclaimed] at kept
  rcases kept with ⟨balances, shrinks⟩
  rcases outcome with ⟨rfl, ended⟩ | ⟨fits, ended⟩ | ⟨-, ⟨room, ended⟩ | ⟨-, ended⟩⟩
  · rw [after_of_ok ended]
    refine ⟨balances, fun left asked same => ?_⟩
    cases ended.symm.trans same
    have missing := Rooted.reclaim_enough request rooted.heap.size 0 rooted.heap.attempts true
      (congrArg Prod.fst reclaimed)
    rw [reclaimed] at missing
    have sized := balanced.size_le_capacity
    rw [shrinks.capacity]
    dsimp only at missing
    omega
  · rw [after_of_ok ended]
    have sized := balances.balanced.size_le_capacity
    refine ⟨⟨?_, balances.limit, balances.growth⟩, fun left asked same => ?_⟩
    · exact
        { balances.balanced with
          size_le_capacity := Nat.le_add_right_of_le sized
          capacity_le_limit := fits }
    · cases ended.symm.trans same
      exact Nat.lt_of_le_of_lt sized (Nat.lt_add_of_pos_right asked)
  · rw [after_of_ok ended]
    refine ⟨balances.trans (Rooted.balances_fullCollect balances.balanced),
      fun left asked same => ?_⟩
    cases ended.symm.trans same
    exact room
  · rw [after_of_error ended]
    refine ⟨balances.trans (Rooted.balances_fullCollect balances.balanced),
      fun left asked same => ?_⟩
    cases ended.symm.trans same

end HeapM

/-! ## Registering -/

namespace Heap

/-- A cell that is still empty after a placing was not the one that was taken. -/
theorem mem_free_place {heap : Heap} (balanced : heap.Balanced) (object : HeapObject) {slot : Nat}
    (empty : (heap.place object).2.cells[slot]? = some none) :
    slot ∈ (heap.place object).2.free := by
  cases free : heap.free with
  | nil =>
    have pushed : (heap.cells.push (some object))[slot]? = some none := by
      simpa [place, free] using empty
    have unused : heap.cells[slot]? = some none := by
      rw [Array.getElem?_push] at pushed
      split at pushed
      · cases pushed
      · exact pushed
    have listed := balanced.free_listed slot unused
    rw [free] at listed
    cases listed
  | cons first rest =>
    have written : (heap.cells.setIfInBounds first (some object))[slot]? = some none := by
      simpa [place, free] using empty
    have listed : slot ∈ rest := by
      rw [Array.getElem?_setIfInBounds] at written
      split at written
      · split at written <;> cases written
      · rename_i different
        have listed := balanced.free_listed slot written
        rw [free] at listed
        exact (List.mem_cons.mp listed).resolve_left fun equal => different equal.symm
    simpa [place, free] using listed

theorem balances_place {heap : Heap} (balanced : heap.Balanced)
    (room : heap.size < heap.capacity) (object : HeapObject) :
    heap.Balances (heap.place object).2 := by
  obtain ⟨slot, -, places⟩ := places_place balanced.toConsistent object
  have grown : (heap.place object).2.size = heap.size + 1 := by
    simp only [place]
    cases heap.free <;> simp [size]
  have numbers : (heap.place object).2.tenured = heap.tenured ∧
      (heap.place object).2.capacity = heap.capacity ∧
      (heap.place object).2.limit = heap.limit ∧ (heap.place object).2.growth = heap.growth := by
    simp only [place]
    cases heap.free <;> exact ⟨rfl, rfl, rfl, rfl⟩
  rcases numbers with ⟨tenured, capacity, limit, growth⟩
  refine ⟨?_, limit, growth⟩
  exact
    { toConsistent := places.consistent
      free_listed := fun _ => mem_free_place balanced object
      tenured_le_size := by
        have := balanced.tenured_le_size
        omega
      size_le_capacity := by omega
      capacity_le_limit := by
        rw [capacity, limit]
        exact balanced.capacity_le_limit
      growth_pos := growth ▸ balanced.growth_pos }

theorem balances_advanceHash {heap : Heap} (balanced : heap.Balanced) :
    heap.Balances heap.advanceHash :=
  balanced.balances_of_frame rfl rfl (fun _ => .rfl) (fun _ => .rfl) balanced.tenured_le_size
    rfl rfl rfl

end Heap

namespace HeapM

variable {ρ : Type}

theorem placeFresh_balances {rooted : Rooted ρ} (balanced : rooted.heap.Balanced)
    (room : rooted.heap.size < rooted.heap.capacity) (object : HeapObject) :
    rooted.heap.Balances ((placeFresh object).after rooted).heap := by
  have advanced := Heap.balances_advanceHash balanced
  exact advanced.trans (Heap.balances_place advanced.balanced room _)

variable [RootSet ρ]

theorem register_balances {rooted : Rooted ρ} (balanced : rooted.heap.Balanced)
    (object : HeapObject) : rooted.heap.Balances ((register object).after rooted).heap := by
  rcases makeRoom_balances rooted.heap.growth
    ⟨rooted.heap, (⟨rooted.roots, object.references⟩ : PendingRoots ρ)⟩ balanced with
    ⟨balances, roomy⟩
  rcases register_steps object rooted with
    ⟨room, same⟩ | ⟨-, ⟨left, made, same⟩ | ⟨error, left, made, same⟩⟩
  · have ended : (register object).after rooted = (placeFresh object).after rooted := by
      rw [after, same, after]
    rw [ended]
    exact placeFresh_balances balanced room object
  · have ended : (register object).after rooted
        = (placeFresh object).after ⟨left.heap, left.roots.roots⟩ := by
      rw [after, same, after]
    rw [after_of_ok made] at balances
    have room := roomy left balanced.growth_pos made
    rw [ended]
    exact balances.trans (@placeFresh_balances ρ ⟨left.heap, left.roots.roots⟩
      balances.balanced room object)
  · rw [after_of_error made] at balances
    rw [after_of_error same]
    exact balances

end HeapM

end Smalltalk

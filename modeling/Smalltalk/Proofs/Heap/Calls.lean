import Smalltalk.Heap.Enumeration
import Smalltalk.Proofs.Heap.Bookkeeping
import Smalltalk.Proofs.Heap.Exchange

namespace Smalltalk

/-! Whatever is asked of a heap, and whether or not it succeeds, the cells, the list of
free cells and the table go on saying the same, and the table stays within its
boundaries. -/

/-- What can be asked of a heap with its roots. -/
inductive HeapCall where
  | register (object : HeapObject)
  | registerLoaded (object : HeapObject)
  | compact (start : Nat)
  | partialCollect
  | fullCollect
  | makeRoom (request : Nat)
  | become (sources targets : List Value) (twoWay : Bool)
  | tenure
  | nextInstance (start : Nat) (species : Option Value)
  | instantiate (species : Value) (size : Nat) (nil : Value)
  | copy (object : Value)
  | store (object : Value) (index : Nat) (value : Value)

namespace HeapCall

variable {ρ : Type} [RootSet ρ]

/-- The heap and the roots that a call leaves, whether or not it succeeds. A registration
that comes with its hash, an exchange of identities and a store do nothing if they fail. -/
def perform (rooted : Rooted ρ) : HeapCall → Rooted ρ
  | register object => (HeapM.register object).after rooted
  | registerLoaded object =>
    { rooted with
      heap := ((rooted.heap.registerLoaded object).toOption.map Prod.snd).getD rooted.heap }
  | compact start => rooted.compact start
  | partialCollect => rooted.partialCollect
  | fullCollect => rooted.fullCollect
  | makeRoom request => (HeapM.makeRoom request).after rooted
  | become sources targets twoWay => (rooted.become sources targets twoWay).toOption.getD rooted
  | tenure => rooted.mapHeap Heap.tenure
  | nextInstance start species => rooted.mapHeap fun heap => (heap.nextInstance start species).2
  | instantiate species size nil => (HeapM.instantiate species size nil).after rooted
  | copy object => (HeapM.copy object).after rooted
  | store object index value =>
    { rooted with
      heap := (rooted.heap.store object index value).toOption.getD rooted.heap }

variable {rooted : Rooted ρ}

theorem registerLoaded_balances (balanced : rooted.heap.Balanced) (object : HeapObject) :
    rooted.heap.Balances ((registerLoaded object).perform rooted).heap := by
  have place {heap : Heap} (balances : rooted.heap.Balances heap)
      (room : heap.size < heap.capacity) :
      rooted.heap.Balances (heap.advanceHash.place object).2 := by
    have advanced := balances.trans (Heap.balances_advanceHash balances.balanced)
    exact advanced.trans (Heap.balances_place advanced.balanced room object)
  have sized := balanced.size_le_capacity
  change rooted.heap.Balances
    (((rooted.heap.registerLoaded object).toOption.map Prod.snd).getD rooted.heap)
  simp only [Heap.registerLoaded]
  by_cases full : rooted.heap.capacity ≤ rooted.heap.size
  · rw [if_pos full]
    by_cases fits : rooted.heap.limit < rooted.heap.capacity + rooted.heap.growth
    · rw [Heap.grow, if_pos fits]
      exact balanced.balances
    · rw [Heap.grow, if_neg fits]
      refine place ⟨?_, rfl, rfl⟩
        (Nat.lt_of_le_of_lt sized (Nat.lt_add_of_pos_right balanced.growth_pos))
      exact
        { balanced with
          size_le_capacity := Nat.le_add_right_of_le sized
          capacity_le_limit := Nat.not_lt.mp fits }
  · rw [if_neg full]
    exact place balanced.balances (by omega)

theorem become_balances (balanced : rooted.heap.Balanced) (sources targets : List Value)
    (twoWay : Bool) :
    rooted.heap.Balances ((become sources targets twoWay).perform rooted).heap := by
  change rooted.heap.Balances ((rooted.become sources targets twoWay).toOption.getD rooted).heap
  simp only [Rooted.become]
  cases rooted.heap.redirection sources targets twoWay with
  | error error => exact balanced.balances
  | ok redirection =>
    change rooted.heap.Balances (rooted.heap.rename redirection.apply)
    have tabled := balanced.toTabled
    have same := Heap.rename_eq tabled redirection.apply
    exact balanced.balances_of_frame (by rw [same]) (by rw [same])
      (Heap.live_rename_iff tabled _) (Heap.empty_rename_iff tabled _)
      (by rw [same]; exact balanced.tenured_le_size) (by rw [same]) (by rw [same]) (by rw [same])

theorem nextInstance_balances (balanced : rooted.heap.Balanced) (start : Nat)
    (species : Option Value) :
    rooted.heap.Balances ((nextInstance start species).perform rooted).heap := by
  change rooted.heap.Balances (rooted.heap.nextInstance start species).2
  simp only [Heap.nextInstance]
  cases rooted.heap.nextPosition? start species with
  | none => exact balanced.balances
  | some position =>
    exact balanced.balances_of_frame rfl rfl (fun _ => .rfl) (fun _ => .rfl)
      balanced.tenured_le_size rfl rfl rfl

theorem instantiate_balances (balanced : rooted.heap.Balanced) (species : Value) (size : Nat)
    (nil : Value) : rooted.heap.Balances ((instantiate species size nil).perform rooted).heap := by
  change rooted.heap.Balances ((HeapM.instantiate species size nil).after rooted).heap
  simp only [HeapM.instantiate]
  rcases HeapM.after_read with same | ⟨description, same⟩
  · rw [same]
    exact balanced.balances
  · rw [same]
    cases description.int? with
    | none => exact balanced.balances
    | some bits => exact HeapM.register_balances balanced _

theorem copy_balances (balanced : rooted.heap.Balanced) (object : Value) :
    rooted.heap.Balances ((copy object).perform rooted).heap := by
  change rooted.heap.Balances ((HeapM.copy object).after rooted).heap
  simp only [HeapM.copy]
  rcases HeapM.after_read with same | ⟨original, same⟩
  · rw [same]
    exact balanced.balances
  · rw [same]
    exact HeapM.register_balances balanced original

theorem store_balances (balanced : rooted.heap.Balanced) (object : Value) (index : Nat)
    (value : Value) : rooted.heap.Balances ((store object index value).perform rooted).heap := by
  change rooted.heap.Balances
    ((rooted.heap.store object index value).toOption.getD rooted.heap)
  cases stored : rooted.heap.store object index value with
  | error error => exact balanced.balances
  | ok heap =>
    rcases Heap.store_eq_ok_iff.mp stored with ⟨-, rfl⟩
    exact Heap.balances_update balanced object _

/-- Every call keeps a heap balanced, whether or not it succeeds. -/
theorem perform_balances (rooted : Rooted ρ) (balanced : rooted.heap.Balanced) (call : HeapCall) :
    rooted.heap.Balances (call.perform rooted).heap := by
  cases call with
  | register object => exact HeapM.register_balances balanced object
  | registerLoaded object => exact registerLoaded_balances balanced object
  | compact start => exact Heap.balances_compact balanced start _
  | partialCollect => exact Rooted.balances_partialCollect balanced
  | fullCollect => exact Rooted.balances_fullCollect balanced
  | makeRoom request => exact (HeapM.makeRoom_balances request rooted balanced).1
  | become sources targets twoWay => exact become_balances balanced sources targets twoWay
  | tenure =>
    exact balanced.balances_of_frame rfl rfl (fun _ => .rfl) (fun _ => .rfl) (Nat.le_refl _)
      rfl rfl rfl
  | nextInstance start species => exact nextInstance_balances balanced start species
  | instantiate species size nil => exact instantiate_balances balanced species size nil
  | copy object => exact copy_balances balanced object
  | store object index value => exact store_balances balanced object index value

end HeapCall

namespace Heap

/-- The heaps that come out of any sequence of calls, each with roots of its own, on a new
heap. -/
inductive Reached (config : Config) : Heap → Prop
  | new : Reached config (ofConfig config)
  | call {ρ : Type} [RootSet ρ] {heap : Heap} (before : Reached config heap) (roots : ρ)
    (call : HeapCall) : Reached config (call.perform ⟨heap, roots⟩).heap

/-- After any sequence of calls, successful or failing, on a heap of an accepted
configuration, the cells, the free list and the table agree, and the table is within
its boundaries. -/
theorem balanced_of_reached {config : Config} (valid : config.validate = .ok ()) {heap : Heap}
    (reached : Reached config heap) :
    (heap.table.toList.Nodup ∧ (∀ slot, slot ∈ heap.table.toList ↔ heap.Live slot)) ∧
      (heap.free.Nodup ∧ ∀ slot, slot ∈ heap.free ↔ heap.cells[slot]? = some none) ∧
      heap.tenured ≤ heap.size ∧ heap.size ≤ heap.capacity ∧
      heap.capacity ≤ config.tableMaxSize := by
  have balances : (ofConfig config).Balances heap := by
    induction reached with
    | new => exact (balanced_ofConfig valid).balances
    | call _ roots call induction =>
      exact induction.trans (HeapCall.perform_balances ⟨_, roots⟩ induction.balanced call)
  have balanced := balances.balanced
  refine ⟨⟨balanced.nodup, fun slot => ⟨balanced.live slot, balanced.listed slot⟩⟩,
    ⟨balanced.free_nodup, fun slot => ⟨balanced.free_empty slot, balanced.free_listed slot⟩⟩,
    balanced.tenured_le_size, balanced.size_le_capacity, ?_⟩
  have limit : heap.limit = config.tableMaxSize := balances.limit
  exact limit ▸ balanced.capacity_le_limit

/-- A table of two entries that cannot grow. -/
def crowdedConfig : Config :=
  { Config.compact with tableSize := 2, tableMaxSize := 2, tableGrowSize := 1 }

/-- Four registrations, of which the third finds the second object unreachable and takes
its cell and the fourth is refused, and then a collection that frees the first. -/
def crowdedHeap : Heap :=
  let object : HeapObject := { species := .zero, format := Format.fixed, body := .pointers #[] }
  let register (heap : Heap) (roots : List Value) : Heap :=
    ((HeapCall.register object).perform ⟨heap, roots⟩).heap
  let one := register (ofConfig crowdedConfig) []
  let two := register one [.object 0]
  let three := register two [.object 0]
  let four := register three [.object 0, .object 1]
  ((HeapCall.compact 0).perform ⟨four, [Value.object 1]⟩).heap

theorem balanced_crowdedHeap :
    crowdedConfig.validate = .ok () ∧ Reached crowdedConfig crowdedHeap ∧
      crowdedHeap.table = #[1] ∧ crowdedHeap.free = [0] ∧ crowdedHeap.capacity = 2 ∧
      ∀ slot, slot ∈ crowdedHeap.table.toList ↔ crowdedHeap.Live slot := by
  have reached : Reached crowdedConfig crowdedHeap :=
    ((((Reached.new.call _ _).call _ _).call _ _).call _ _).call _ _
  exact ⟨by decide, reached, by decide +kernel, by decide +kernel, by decide +kernel,
    (balanced_of_reached (by decide) reached).1.2⟩

end Heap

end Smalltalk

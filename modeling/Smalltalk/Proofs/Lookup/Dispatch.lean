import Mathlib.Data.Fintype.Pigeonhole
import Smalltalk.Proofs.Lookup.Transparency

namespace Smalltalk

/-! Two heaps dispatch alike from a class when the class and its superclasses have
the same description, the same superclass and the same methods in both. A search
from such a class finds the same in both heaps, and what it finds it finds within
as many classes as the heap has cells. -/

/-- What searches and indexed accesses read of a class. -/
structure ClassFacts where
  superclass : Except MemoryError Value
  format : Except MemoryError ClassFormat
  dictionary : Except MemoryError Value
  /-- The fields of the method dictionary: its array of methods and its selectors. -/
  entries : Except MemoryError (Array Value)
  methods : Except MemoryError (Array Value)
  headers : List (Except MemoryError (Option MethodHeader))
deriving DecidableEq

namespace Heap

def classFacts (heap : Heap) (species : Value) : ClassFacts :=
  let dictionary := heap.fetch species ClassField.methodDictionary
  let methods := do heap.pointers (← heap.fetch (← dictionary) DictionaryField.methods)
  { superclass := heap.fetch species ClassField.superclass
    format := heap.classFormat species
    dictionary
    entries := do heap.pointers (← dictionary)
    methods
    headers := (methods.toOption.getD #[]).toList.map heap.methodHeader? }

/-- The superclass of a class, unless that is nil or cannot be read. -/
def properSuperclass? (heap : Heap) (nil species : Value) : Option Value :=
  (heap.fetch species ClassField.superclass).toOption.filter (· ≠ nil)

/-- The class so many levels above a class. -/
def climb (heap : Heap) (nil : Value) : (levels : Nat) → (species : Value) → Option Value
  | 0, species => if species = nil then none else some species
  | levels + 1, species => (heap.climb nil levels species).bind (heap.properSuperclass? nil)

/-- Whether nothing that is read of a class and its superclasses has changed. -/
def DispatchesAlike (nil : Value) (before after : Heap) (species : Value) : Prop :=
  ∀ levels above, before.climb nil levels species = some above →
    after.classFacts above = before.classFacts above

variable {heap before middle after : Heap} {selector nil species above : Value} {levels : Nat}

/-! ## Superclasses -/

theorem properSuperclass?_eq_some_iff :
    heap.properSuperclass? nil species = some above ↔
      heap.fetch species ClassField.superclass = .ok above ∧ above ≠ nil := by
  rw [properSuperclass?, Option.filter_eq_some_iff]
  cases heap.fetch species ClassField.superclass <;> simp [Except.toOption]

theorem climb_nil : heap.climb nil levels nil = none := by
  induction levels with
  | zero => exact if_pos rfl
  | succ levels induction => rw [climb, induction, Option.bind_none]

theorem climb_add (lower higher : Nat) :
    heap.climb nil (lower + higher) species
      = (heap.climb nil lower species).bind (heap.climb nil higher) := by
  induction higher with
  | zero =>
    cases reached : heap.climb nil lower species with
    | none => rfl
    | some above =>
      have proper : above ≠ nil := by
        cases lower with
        | zero =>
          simp only [climb] at reached
          split at reached <;> simp_all
        | succ lower =>
          rcases Option.bind_eq_some_iff.mp reached with ⟨_, -, next⟩
          exact (properSuperclass?_eq_some_iff.mp next).2
      simp [climb, proper]
  | succ higher induction =>
    rw [← Nat.add_assoc, climb, induction]
    cases heap.climb nil lower species <;> rfl

theorem climb_succ (proper : species ≠ nil) :
    heap.climb nil (levels + 1) species
      = (heap.properSuperclass? nil species).bind (heap.climb nil levels) := by
  rw [Nat.add_comm, climb_add]
  simp [climb, proper]

/-- A class that has a superclass is there. -/
theorem live_of_climb {reached : Nat} (passed : levels < reached)
    (found : (heap.climb nil reached species).isSome) :
    ∃ slot, heap.climb nil levels species = some (.object slot) ∧ slot < heap.cells.size := by
  rcases Nat.exists_eq_add_of_lt passed with ⟨more, rfl⟩
  rw [Nat.add_assoc, climb_add] at found
  cases lower : heap.climb nil levels species with
  | none => simp [lower] at found
  | some middle =>
    rw [lower, Option.bind_some, Nat.add_comm, climb_add] at found
    have next : (heap.climb nil 1 middle).isSome := by
      cases first : heap.climb nil 1 middle with
      | none => simp [first] at found
      | some _ => rfl
    rcases Option.isSome_iff_exists.mp next with ⟨above, higher⟩
    rcases Option.bind_eq_some_iff.mp higher with ⟨same, start, fetched⟩
    simp only [climb] at start
    split at start
    · cases start
    · cases start
      rcases mem_references_of_fetch (properSuperclass?_eq_some_iff.mp fetched).1 with
        ⟨owner, here, -⟩
      cases middle with
      | small n => cases here
      | object slot => exact ⟨slot, rfl, (live_of_cell? here).lt_size⟩

/-- Higher up than the heap has cells, classes come again. -/
theorem exists_climb_le (found : heap.climb nil levels species = some above) :
    ∃ fewer ≤ heap.cells.size, heap.climb nil fewer species = some above := by
  induction levels using Nat.strongRecOn with
  | ind levels induction =>
    rcases Nat.lt_or_ge heap.cells.size levels with high | low
    · have slots (level : Fin (heap.cells.size + 1)) : ∃ slot : Fin heap.cells.size,
          heap.climb nil level species = some (.object slot) := by
        have passed : level.val < levels := by omega
        have reached : (heap.climb nil levels species).isSome := by rw [found, Option.isSome_some]
        rcases live_of_climb passed reached with ⟨slot, here, bound⟩
        exact ⟨⟨slot, bound⟩, here⟩
      choose slotAt here using slots
      rcases Fintype.exists_ne_map_eq_of_card_lt slotAt (by simp) with ⟨one, other, apart, same⟩
      wlog lower : one < other generalizing one other
      · exact this other one apart.symm same.symm
          (lt_of_le_of_ne (not_lt.mp lower) apart.symm)
      rcases Nat.exists_eq_add_of_lt (show other.val < levels by omega) with ⟨more, rfl⟩
      refine induction (one + (more + 1)) (by omega) ?_
      rw [climb_add, here one, same, ← here other, ← climb_add, ← Nat.add_assoc]
      exact found
    · exact ⟨levels, low, found⟩

/-! ## Dispatching alike -/

instance (nil : Value) (before after : Heap) (species : Value) :
    Decidable (DispatchesAlike nil before after species) :=
  decidable_of_iff
    (∀ levels < before.cells.size + 1, ∀ above ∈ before.climb nil levels species,
      after.classFacts above = before.classFacts above) <| by
    constructor
    · intro bounded levels above found
      rcases exists_climb_le found with ⟨fewer, bound, again⟩
      exact bounded fewer (Nat.lt_succ_of_le bound) above again
    · exact fun alike levels _ above found => alike levels above found

namespace DispatchesAlike

theorem refl : DispatchesAlike nil heap heap species := fun _ _ _ => rfl

theorem climb_eq (alike : DispatchesAlike nil before after species) :
    after.climb nil levels species = before.climb nil levels species := by
  induction levels with
  | zero => rfl
  | succ levels induction =>
    rw [climb, climb, induction]
    cases found : before.climb nil levels species with
    | none => rfl
    | some above =>
      have same : after.fetch above ClassField.superclass
          = before.fetch above ClassField.superclass :=
        congrArg ClassFacts.superclass (alike levels above found)
      simp only [Option.bind_some, properSuperclass?, same]

theorem symm (alike : DispatchesAlike nil before after species) :
    DispatchesAlike nil after before species := by
  intro levels above found
  rw [alike.climb_eq] at found
  exact (alike levels above found).symm

theorem trans (early : DispatchesAlike nil before middle species)
    (late : DispatchesAlike nil middle after species) :
    DispatchesAlike nil before after species := by
  intro levels above found
  refine (late levels above ?_).trans (early levels above found)
  rw [early.climb_eq]
  exact found

/-- What holds from a class holds from its superclasses. -/
theorem of_above (alike : DispatchesAlike nil before after species)
    (found : before.climb nil levels species = some above) :
    DispatchesAlike nil before after above := by
  intro higher top reached
  refine alike (levels + higher) top ?_
  rw [climb_add, found]
  exact reached

theorem of_next (alike : DispatchesAlike nil before after species) (proper : species ≠ nil)
    (next : before.fetch species ClassField.superclass = .ok above) :
    DispatchesAlike nil before after above := by
  by_cases ended : above = nil
  · subst ended
    intro levels top reached
    rw [climb_nil] at reached
    cases reached
  · have one : before.climb nil 1 species = some above := by
      simp [climb, proper, properSuperclass?_eq_some_iff.mpr ⟨next, ended⟩]
    exact alike.of_above one

theorem keepsClass (alike : DispatchesAlike nil before after species) (proper : species ≠ nil) :
    KeepsClass before after species := by
  have same := alike 0 species (by simp [climb, proper])
  have dictionary : after.fetch species ClassField.methodDictionary
      = before.fetch species ClassField.methodDictionary := congrArg ClassFacts.dictionary same
  have selectors (held : Value)
      (known : before.fetch species ClassField.methodDictionary = .ok held) :
      after.pointers held = before.pointers held := by
    have entries := congrArg ClassFacts.entries same
    simp only [classFacts, dictionary, known] at entries
    exact entries
  have methods (held array : Value)
      (known : before.fetch species ClassField.methodDictionary = .ok held)
      (stored : before.fetch held DictionaryField.methods = .ok array) :
      after.pointers array = before.pointers array := by
    have again : after.fetch held DictionaryField.methods = .ok array := by
      rw [← stored, fetch, fetch, selectors held known]
    have arrays := congrArg ClassFacts.methods same
    simp only [classFacts, dictionary, known] at arrays
    change (after.fetch held DictionaryField.methods >>= after.pointers)
      = (before.fetch held DictionaryField.methods >>= before.pointers) at arrays
    rw [again, stored] at arrays
    exact arrays
  refine ⟨congrArg ClassFacts.superclass same, dictionary, selectors, methods, ?_⟩
  intro held array place method known stored fetched
  rcases fetch_eq_ok_iff.mp fetched with ⟨fields, readable, inside⟩
  have again : after.fetch held DictionaryField.methods = .ok array := by
    rw [← stored, fetch, fetch, selectors held known]
  have headers := congrArg ClassFacts.headers same
  simp only [classFacts, dictionary, known, bind, Except.bind, again, stored,
    methods held array known stored, readable] at headers
  exact List.map_inj_left.mp headers method
    (Array.mem_toList_iff.mpr (Array.mem_of_getElem? inside))

theorem classFormat_eq (alike : DispatchesAlike nil before after species)
    (proper : species ≠ nil) : after.classFormat species = before.classFormat species :=
  congrArg ClassFacts.format (alike 0 species (by simp [climb, proper]))

theorem keepsLine : KeepsLine nil before after (DispatchesAlike nil before after) where
  keeps alike := alike.keepsClass
  next alike := alike.of_next

theorem confirms {entry : CacheEntry} (alike : DispatchesAlike nil before after entry.species)
    (hash : after.hashOf entry.selector = before.hashOf entry.selector)
    (confirms : before.Confirms nil entry) : after.Confirms nil entry where
  walks := keepsLine.walks alike hash confirms.walks
  primitive := by
    rw [primitiveOf, keepsLine.header_eq alike confirms.walks]
    exact confirms.primitive

end DispatchesAlike

/-! ## Where a search ends -/

/-- A search that finds a method finds it in one of the classes above, and in none
below that. -/
theorem Walks.exists_climb {method : Value}
    (walks : heap.Walks selector nil species (.ok (some method))) :
    ∃ levels above, heap.climb nil levels species = some above ∧
      heap.ownMethod selector nil above = .ok (some method) ∧
      ∀ fewer < levels, ∀ lower, heap.climb nil fewer species = some lower →
        heap.ownMethod selector nil lower = .ok none := by
  generalize answered : (Except.ok (some method) : Except MemoryError (Option Value)) = answer
    at walks
  induction walks with
  | ended => cases answered
  | unsearchable => cases answered
  | cutOff => cases answered
  | @own species _ proper found =>
    cases answered
    exact ⟨0, species, by simp [climb, proper], found, fun _ below =>
      (Nat.not_lt_zero _ below).elim⟩
  | @inherited species above _ proper missing next _ induction =>
    rcases induction answered with ⟨levels, top, reached, found, before⟩
    have higher : above ≠ nil := by
      intro ended
      rw [ended, climb_nil] at reached
      cases reached
    have superclass : heap.properSuperclass? nil species = some above :=
      properSuperclass?_eq_some_iff.mpr ⟨next, higher⟩
    refine ⟨levels + 1, top, ?_, found, ?_⟩
    · rw [climb_succ proper, superclass, Option.bind_some, reached]
    · intro fewer below lower passed
      cases fewer with
      | zero =>
        simp only [climb, if_neg proper, Option.some.injEq] at passed
        exact passed ▸ missing
      | succ fewer =>
        rw [climb_succ proper, superclass, Option.bind_some] at passed
        exact before fewer (Nat.lt_of_succ_lt_succ below) lower passed

theorem Walks.proper {method : Value}
    (walks : heap.Walks selector nil species (.ok (some method))) : species ≠ nil := by
  rcases walks.exists_climb with ⟨levels, above, reached, -⟩
  intro ended
  rw [ended, climb_nil] at reached
  cases reached

/-- A search that finds a method does so within as many classes as there are cells. -/
theorem Walks.exists_climb_le {method : Value}
    (walks : heap.Walks selector nil species (.ok (some method))) :
    ∃ levels ≤ heap.cells.size, ∃ above, heap.climb nil levels species = some above ∧
      heap.ownMethod selector nil above = .ok (some method) ∧
      ∀ fewer < levels, ∀ lower, heap.climb nil fewer species = some lower →
        heap.ownMethod selector nil lower = .ok none := by
  rcases walks.exists_climb with ⟨levels, above, reached, found, before⟩
  rcases Heap.exists_climb_le reached with ⟨fewer, bound, again⟩
  refine ⟨levels, ?_, above, reached, found, before⟩
  by_contra high
  have missing := before fewer (by omega) above again
  rw [found] at missing
  cases missing

end Heap

namespace Run

variable {machine : Machine} {selector species : Value}

/-- The computation finds what the search finds, and only counts. -/
theorem methodFrom_of_climb {levels budget : Nat} {above method : Value}
    (enough : levels < budget)
    (reached : machine.heap.climb machine.registers.specials.nil levels species = some above)
    (found : machine.heap.ownMethod selector machine.registers.specials.nil above
      = .ok (some method))
    (before : ∀ fewer < levels, ∀ lower,
      machine.heap.climb machine.registers.specials.nil fewer species = some lower →
        machine.heap.ownMethod selector machine.registers.specials.nil lower = .ok none) :
    ∃ counts, methodFrom selector budget species machine
      = .ok (some method) (machine.withCacheCounts counts) := by
  have proper : species ≠ machine.registers.specials.nil := by
    intro ended
    rw [ended, Heap.climb_nil] at reached
    cases reached
  obtain ⟨rounds, rfl⟩ : ∃ rounds, budget = rounds + 1 := ⟨budget - 1, by omega⟩
  rw [methodFrom_proper proper]
  induction levels generalizing machine species rounds with
  | zero =>
    simp only [Heap.climb, if_neg proper, Option.some.injEq] at reached
    rw [reached, found]
    exact ⟨_, rfl⟩
  | succ levels induction =>
    have missing := before 0 (Nat.succ_pos _) species (by simp [Heap.climb, proper])
    rw [Heap.climb_succ proper] at reached
    rcases Option.bind_eq_some_iff.mp reached with ⟨next, superclass, later⟩
    rcases Heap.properSuperclass?_eq_some_iff.mp superclass with ⟨fetched, higher⟩
    obtain ⟨fewer, rfl⟩ : ∃ fewer, rounds = fewer + 1 := ⟨rounds - 1, by omega⟩
    let counted := machine.withCacheCounts machine.registers.methodCache.countDictionaryProbe.counts
    have rest := @induction counted next later found (fun lower below middle passed => ?_) higher
      fewer (by omega)
    · rcases rest with ⟨counts, ended⟩
      refine ⟨counts, ?_⟩
      have read : fetch species ClassField.superclass counted = .ok next counted := fetch_ok fetched
      rw [missing]
      exact (bind_ok read).trans
        ((@methodFrom_proper counted selector next higher fewer).trans ended)
    · refine before (lower + 1) (by omega) middle ?_
      rw [Heap.climb_succ proper, superclass]
      exact passed

/-- What the computation finds, a search finds. -/
theorem methodFrom_ensures (machine : Machine) (selector : Value) (budget : Nat)
    (species : Value) :
    (methodFrom selector budget species).Ensures machine fun found after =>
      (∃ counts, after = machine.withCacheCounts counts) ∧
      machine.heap.Walks selector machine.registers.specials.nil species (.ok found) := by
  induction budget generalizing machine species with
  | zero =>
    intro found after ended
    by_cases proper : species = machine.registers.specials.nil
    · subst proper
      rw [methodFrom_nil] at ended
      cases ended
      exact ⟨⟨_, rfl⟩, .ended⟩
    · rw [methodFrom, bind_ok getNil_apply, if_neg proper] at ended
      cases ended
  | succ budget induction =>
    intro found after ended
    by_cases proper : species = machine.registers.specials.nil
    · subst proper
      rw [methodFrom_nil] at ended
      cases ended
      exact ⟨⟨_, rfl⟩, .ended⟩
    · rw [methodFrom_proper proper] at ended
      let counted := machine.withCacheCounts
        machine.registers.methodCache.countDictionaryProbe.counts
      cases own : machine.heap.ownMethod selector machine.registers.specials.nil species with
      | error error =>
        rw [own] at ended
        cases ended
      | ok method =>
        rw [own] at ended
        cases method with
        | some method =>
          cases ended
          exact ⟨⟨_, rfl⟩, .own proper own⟩
        | none =>
          have rest : (fetch species ClassField.superclass >>= methodFrom selector budget).Ensures
              counted fun found after => (∃ counts, after = machine.withCacheCounts counts) ∧
                machine.heap.Walks selector machine.registers.specials.nil species (.ok found) := by
            refine (ensures_fetch counted _ _).bindTo fun above fetched => ?_
            refine (induction counted above).mono fun found after answered => ?_
            exact ⟨answered.1, .inherited proper own fetched answered.2⟩
          exact rest found after ended

end Run

end Smalltalk

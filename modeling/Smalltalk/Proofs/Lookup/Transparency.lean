import Smalltalk.Machine.Send
import Smalltalk.Proofs.Lookup.Kept
import Smalltalk.Proofs.Machine.Lookup

namespace Smalltalk

/-! The method cache never changes what a lookup answers. Every used entry says
what a walk from its class finds for its selector, and it goes on saying so while
lookups add and evict entries, flushes vacate slots, and collections free what the
cache does not hold. -/

namespace MethodCache

variable {cache : MethodCache} {entry stored : CacheEntry}

theorem mem_entries_insert {selectorHash classHash : Nat}
    (member : stored ∈ (cache.insert entry selectorHash classHash).entries) :
    stored ∈ cache.entries ∨ stored = entry := by
  rw [insert] at member
  split at member <;> exact Array.mem_or_eq_of_mem_setIfInBounds member

theorem mem_entries_forget {selected : CacheEntry → Bool}
    (member : stored ∈ (cache.forget selected).entries) (used : stored.isVacant = false) :
    stored ∈ cache.entries := by
  rcases Array.mem_map.mp member with ⟨old, inside, rfl⟩
  split at used
  · cases used
  · rename_i kept
    rw [if_neg kept]
    exact inside

end MethodCache

/-- The entry for a method that was found with the number of its primitive. -/
def CacheEntry.ofFound (selector species : Value) (found : Value × Nat) : CacheEntry :=
  ⟨selector, species, found.1, found.2⟩

namespace Heap

/-- The number of a method's primitive, zero for what has no header. -/
def primitiveOf (heap : Heap) (method : Value) : Except MemoryError Nat := do
  return ((← heap.methodHeader? method).map MethodHeader.primitive).getD 0

/-- What a lookup answers when nothing is remembered: the method that the walk
finds, with the number of its primitive. -/
inductive Answers (heap : Heap) (selector nil species : Value) :
    Except MemoryError (Option (Value × Nat)) → Prop
  | missing (walks : heap.Walks selector nil species (.ok none)) :
      Answers heap selector nil species (.ok none)
  | failed {error : MemoryError} (walks : heap.Walks selector nil species (.error error)) :
      Answers heap selector nil species (.error error)
  | found {method : Value} (walks : heap.Walks selector nil species (.ok (some method))) :
      Answers heap selector nil species
        ((heap.primitiveOf method).map fun primitive => some (method, primitive))

/-- Whether an entry of the method cache says what a lookup would find. -/
structure Confirms (heap : Heap) (nil : Value) (entry : CacheEntry) : Prop where
  walks : heap.Walks entry.selector nil entry.species (.ok (some entry.method))
  primitive : heap.primitiveOf entry.method = .ok entry.primitive

variable {heap before after : Heap} {selector nil species : Value} {entry : CacheEntry}

theorem Answers.unique {answer other : Except MemoryError (Option (Value × Nat))}
    (answers : heap.Answers selector nil species answer)
    (again : heap.Answers selector nil species other) : other = answer := by
  cases answers with
  | missing walks => cases again with
    | missing _ => rfl
    | failed other => cases walks.unique other
    | found other => cases walks.unique other
  | failed walks => cases again with
    | missing other => cases walks.unique other
    | failed other =>
      cases walks.unique other
      rfl
    | found other => cases walks.unique other
  | found walks => cases again with
    | missing other => cases walks.unique other
    | failed other => cases walks.unique other
    | found other =>
      cases walks.unique other
      rfl

theorem Confirms.transfer (confirms : before.Confirms nil entry)
    (kept : ∀ above, before.Ancestor entry.species above → KeepsClass before after above)
    (hash : after.hashOf entry.selector = before.hashOf entry.selector) :
    after.Confirms nil entry where
  walks := confirms.walks.transfer kept hash
  primitive := by
    rw [primitiveOf, confirms.walks.header_eq kept]
    exact confirms.primitive

/-- A class in which something was found is there. -/
theorem Walks.holds {method : Value}
    (walks : heap.Walks selector nil species (.ok (some method))) : heap.Holds species := by
  have held {index : Nat} {value : Value} (read : heap.fetch species index = .ok value) :
      heap.Holds species := by
    rcases mem_references_of_fetch read with ⟨owner, here, -⟩
    cases species with
    | small n => trivial
    | object slot => exact live_of_cell? here
  cases walks with
  | own _ found =>
    rcases fetch_of_ownMethod found with ⟨_, _, _, known, _⟩
    exact held known
  | inherited _ _ next _ => exact held next

end Heap

namespace Registers

/-- A flush gives up entries and nothing else that a lookup needs. -/
theorem cached_of_flushed {registers last : Registers} (flushed : Flushed registers last) :
    last.specials = registers.specials ∧
      ∀ entry ∈ last.methodCache.entries, entry.isVacant = false →
        entry ∈ registers.methodCache.entries := by
  induction flushed with
  | refl => exact ⟨rfl, fun _ member _ => member⟩
  | flush _ induction =>
    refine ⟨induction.1, fun entry member used => ?_⟩
    rcases Array.mem_map.mp member with ⟨_, -, rfl⟩
    cases used

end Registers

namespace Machine

variable {machine after : Machine}

/-- The heap is sound, and the used entries of the method cache say what lookups
would find. Their selectors are objects that are there. -/
structure Faithful (machine : Machine) : Prop where
  consistent : machine.heap.Consistent
  closed : machine.heap.Closed
  selector : ∀ entry ∈ machine.registers.methodCache.entries, entry.isVacant = false →
    machine.heap.Holds entry.selector
  confirms : ∀ entry ∈ machine.registers.methodCache.entries, entry.isVacant = false →
    machine.heap.Confirms machine.registers.specials.nil entry

/-- A vacant cache says nothing. -/
theorem Faithful.of_vacant (consistent : machine.heap.Consistent) (closed : machine.heap.Closed)
    (vacant : ∀ entry ∈ machine.registers.methodCache.entries, entry.isVacant = true) :
    machine.Faithful where
  consistent := consistent
  closed := closed
  selector entry member used := absurd (vacant entry member) (Bool.eq_false_iff.mp used)
  confirms entry member used := absurd (vacant entry member) (Bool.eq_false_iff.mp used)

/-- Forgetting does no harm. -/
theorem Faithful.of_subset (faithful : machine.Faithful) (heap : after.heap = machine.heap)
    (nil : after.registers.specials.nil = machine.registers.specials.nil)
    (subset : ∀ entry ∈ after.registers.methodCache.entries, entry.isVacant = false →
      entry ∈ machine.registers.methodCache.entries) : after.Faithful where
  consistent := heap ▸ faithful.consistent
  closed := heap ▸ faithful.closed
  selector entry member used := heap ▸ faithful.selector entry (subset entry member used) used
  confirms entry member used := by
    rw [heap, nil]
    exact faithful.confirms entry (subset entry member used) used

/-- A lookup remembers no more than what it found. -/
theorem Faithful.remember (faithful : machine.Faithful) {entry : CacheEntry}
    (held : machine.heap.Holds entry.selector)
    (confirms : machine.heap.Confirms machine.registers.specials.nil entry)
    (selectorHash classHash : Nat) :
    Faithful { machine with
      registers.methodCache :=
        machine.registers.methodCache.insert entry selectorHash classHash } where
  consistent := faithful.consistent
  closed := faithful.closed
  selector stored member used := by
    rcases MethodCache.mem_entries_insert member with old | rfl
    · exact faithful.selector stored old used
    · exact held
  confirms stored member used := by
    rcases MethodCache.mem_entries_insert member with old | rfl
    · exact faithful.confirms stored old used
    · exact confirms

/-- Survivors say what they said: a used entry keeps its class alive. -/
theorem Faithful.survives (faithful : machine.Faithful) {heap : Heap} {registers : Registers}
    (survives : Rooted.Survives ⟨machine.heap, machine.registers⟩ ⟨heap, registers⟩) :
    Faithful { machine with heap, registers } := by
  rcases Registers.cached_of_flushed survives.flushed with ⟨specials, earlier⟩
  have rooted {entry : CacheEntry} (member : entry ∈ registers.methodCache.entries)
      (used : entry.isVacant = false) {value : Value} (held : value ∈ entry.values) :
      value ∈ registers.values := by
    have cached : value ∈ registers.methodCache.values :=
      List.mem_flatMap.mpr ⟨entry, Array.mem_toList_iff.mpr member, held⟩
    simp [Registers.values, cached]
  have selector {entry : CacheEntry} (member : entry ∈ registers.methodCache.entries)
      (used : entry.isVacant = false) : heap.Holds entry.selector := by
    refine survives.held _ (rooted member used ?_) ?_
    · simp [CacheEntry.values, used]
    · exact faithful.selector entry (earlier entry member used) used
  refine
    { consistent := survives.consistent
      closed := ?_
      selector := fun entry => selector
      confirms := ?_ }
  · intro slot object found value member
    have kept := (survives.cell slot (Heap.live_of_cell? found)).symm.trans found
    exact survives.closed slot object found value member
      (faithful.closed slot object kept value member)
  · intro entry member used
    have confirms := faithful.confirms entry (earlier entry member used) used
    have species : heap.Holds entry.species := by
      refine survives.held _ (rooted member used ?_) confirms.walks.holds
      simp [CacheEntry.values, used]
    change heap.Confirms registers.specials.nil entry
    rw [specials]
    apply confirms.transfer
    · intro above ancestor
      exact survives.keepsClass faithful.closed
        (survives.holds_ancestor faithful.closed species ancestor)
    · rw [Heap.hashOf, Heap.hashOf, survives.get?_eq (selector member used)]

end Machine

/-! ## Lookups -/

namespace Run

variable {machine : Machine} {selector species : Value}

theorem cachedMethod_apply :
    let looked := machine.registers.methodCache.lookup selector species
      (machine.heap.hashOf selector) (machine.heap.hashOf species)
    cachedMethod selector species machine
      = .ok looked.1 { machine with registers.methodCache := looked.2 } := rfl

theorem cachedMethod_none
    (absent : machine.registers.methodCache.find? selector species
      (machine.heap.hashOf selector) (machine.heap.hashOf species) = none) :
    cachedMethod selector species machine
      = .ok none { machine with
          registers.methodCache := machine.registers.methodCache.countMiss } := by
  simp only [cachedMethod_apply, MethodCache.lookup, absent]

theorem cachedMethod_some {entry : CacheEntry}
    (present : machine.registers.methodCache.find? selector species
      (machine.heap.hashOf selector) (machine.heap.hashOf species) = some entry) :
    cachedMethod selector species machine
      = .ok (some entry) { machine with
          registers.methodCache := machine.registers.methodCache.countHit } := by
  simp only [cachedMethod_apply, MethodCache.lookup, present]

/-- The lookup answers what it would answer without a cache, and the cache that it
leaves says what lookups would find. -/
def FindsFaithfully (machine : Machine) (selector species : Value) : Prop :=
  ∃ answer cache,
    machine.heap.Answers selector machine.registers.specials.nil species answer ∧
    lookupMethod selector species machine
      = ofMemory (answer.map (Option.map (CacheEntry.ofFound selector species)))
          { machine with registers.methodCache := cache } ∧
    Machine.Faithful { machine with registers.methodCache := cache }

/-- An entry answers for the walk that it was found by. -/
theorem finds_of_present (faithful : machine.Faithful) (isObject : selector.isSmall = false)
    {entry : CacheEntry}
    (present : machine.registers.methodCache.find? selector species
      (machine.heap.hashOf selector) (machine.heap.hashOf species) = some entry) :
    FindsFaithfully machine selector species := by
  obtain ⟨entrySelector, entrySpecies, method, primitive⟩ := entry
  rcases MethodCache.key_of_find? present with ⟨one, other⟩
  dsimp only at one other
  subst one other
  have used : CacheEntry.isVacant ⟨entrySelector, entrySpecies, method, primitive⟩ = false :=
    CacheEntry.not_isVacant isObject
  have confirms := faithful.confirms _ (MethodCache.mem_of_find? present used) used
  have answers := Heap.Answers.found confirms.walks
  rw [confirms.primitive] at answers
  exact ⟨_, _, answers, bind_ok (cachedMethod_some present),
    faithful.of_subset rfl rfl fun _ member _ => member⟩

/-- Without an entry there is a walk, and what it finds is remembered. -/
theorem finds_of_absent (faithful : machine.Faithful) (held : machine.heap.Holds selector)
    (lineage : machine.heap.HasLineage machine.registers.specials.nil species)
    (absent : machine.registers.methodCache.find? selector species
      (machine.heap.hashOf selector) (machine.heap.hashOf species) = none) :
    FindsFaithfully machine selector species := by
  rcases lineage with ⟨classes, lineage⟩
  let missed : Machine := { machine with
    registers.methodCache := machine.registers.methodCache.countMiss }
  rcases @methodFrom_walks missed selector species _ _ lineage rfl _ lineage.length_le with
    ⟨found, counts, walks, walked⟩
  let counted := missed.withCacheCounts counts
  have countedFaithful : counted.Faithful := faithful.of_subset rfl rfl fun _ member _ => member
  have start {rest : Option CacheEntry → Run (Option CacheEntry)} :
      (cachedMethod selector species >>= rest) machine = rest none missed :=
    bind_ok (cachedMethod_none absent)
  rw [FindsFaithfully, lookupMethod, start]
  cases found with
  | error error =>
    refine ⟨_, _, .failed walks, ?_, countedFaithful⟩
    exact (bind_ok getHeap_apply).trans (bind_error walked)
  | ok found =>
    cases found with
    | none =>
      refine ⟨_, _, .missing walks, ?_, countedFaithful⟩
      exact (bind_ok getHeap_apply).trans (bind_ok walked)
    | some method =>
      have answers := Heap.Answers.found walks
      cases header : counted.heap.methodHeader? method with
      | error error =>
        have failed : machine.heap.primitiveOf method = .error error := by
          rw [Heap.primitiveOf]
          exact congrArg (· >>= _) header
        rw [failed] at answers
        refine ⟨.error error, _, answers, ?_, countedFaithful⟩
        refine (bind_ok getHeap_apply).trans ((bind_ok walked).trans ?_)
        exact bind_error (readHeap_error header)
      | ok known =>
        let primitive := (known.map MethodHeader.primitive).getD 0
        let entry := CacheEntry.ofFound selector species (method, primitive)
        have found : machine.heap.primitiveOf method = .ok primitive := by
          rw [Heap.primitiveOf]
          exact congrArg (· >>= _) header
        rw [found] at answers
        have confirms : counted.heap.Confirms counted.registers.specials.nil entry :=
          ⟨walks, found⟩
        have known : counted.heap.Holds entry.selector := held
        refine ⟨_, _, answers, ?_, countedFaithful.remember known confirms
          (counted.heap.hashOf selector) (counted.heap.hashOf species)⟩
        refine (bind_ok getHeap_apply).trans ((bind_ok walked).trans ?_)
        exact bind_ok (readHeap_ok header)

/-- While the cache says what lookups would find, so do they. -/
theorem lookupMethod_answers (faithful : machine.Faithful)
    (isObject : selector.isSmall = false) (held : machine.heap.Holds selector)
    (lineage : machine.heap.HasLineage machine.registers.specials.nil species) :
    FindsFaithfully machine selector species := by
  cases present : machine.registers.methodCache.find? selector species
      (machine.heap.hashOf selector) (machine.heap.hashOf species) with
  | some entry => exact finds_of_present faithful isObject present
  | none => exact finds_of_absent faithful held lineage present

end Run

end Smalltalk

import Smalltalk.Proofs.Indexed.Remembered
import Smalltalk.Proofs.Machine.Counts

namespace Smalltalk

/-! A lookup that is repeated answers the same, whether it finds an entry that the first one has
left in the method cache or walks the superclasses once more, and either way it leaves the same
entries behind. -/

namespace MethodCache

/-- A cache that can remember: it has slots, and the slot whose turn it is belongs to the probes
of every key. -/
structure Ready (cache : MethodCache) : Prop where
  slots : 0 < cache.entries.size
  turn : cache.turn < cache.probes

theorem ready_ofSize {size probes : Nat} (slots : 0 < size) (turn : 0 < probes) :
    (ofSize size probes).Ready where
  slots := by simpa [ofSize] using slots
  turn := turn

namespace Ready

variable {cache : MethodCache} (ready : cache.Ready)

include ready

theorem withCounts (counts : CacheCounts) : { cache with counts }.Ready := ⟨ready.slots, ready.turn⟩

theorem forget (selected : CacheEntry → Bool) : (cache.forget selected).Ready where
  slots := by simpa [MethodCache.forget] using ready.slots
  turn := ready.turn

theorem clear : cache.clear.Ready where
  slots := by simpa [MethodCache.clear] using ready.slots
  turn := ready.turn

theorem insert (entry : CacheEntry) (selectorHash classHash : Nat) :
    (cache.insert entry selectorHash classHash).Ready := by
  have positive : 0 < cache.probes := Nat.lt_of_le_of_lt (Nat.zero_le _) ready.turn
  rw [MethodCache.insert]
  split
  · exact ⟨by simpa using ready.slots, ready.turn⟩
  · exact ⟨by simpa using ready.slots, Nat.mod_lt _ positive⟩

end Ready

variable {cache : MethodCache} {entry : CacheEntry} {selectorHash classHash : Nat}

/-- What is stored goes into one of the probes of its key, and everything else stays where it
is. -/
theorem insert_stores (ready : cache.Ready) (entry : CacheEntry) (selectorHash classHash : Nat) :
    ∃ slot ∈ cache.slots selectorHash classHash, slot < cache.entries.size ∧
      (cache.insert entry selectorHash classHash).entries = cache.entries.setIfInBounds slot entry ∧
      (cache.insert entry selectorHash classHash).probes = cache.probes := by
  have inside (turn : Nat) :
      slotAt cache.entries.size selectorHash classHash turn < cache.entries.size :=
    Nat.mod_lt _ ready.slots
  rw [insert]
  split
  · rename_i slot vacant
    have member := List.mem_of_find?_eq_some vacant
    rcases List.mem_map.mp member with ⟨turn, -, rfl⟩
    exact ⟨_, member, inside turn, rfl, rfl⟩
  · exact ⟨_, List.mem_map.mpr ⟨cache.turn, List.mem_range.mpr ready.turn, rfl⟩,
      inside cache.turn, rfl, rfl⟩

/-- What has just been stored for a key that was not there is what is found for it. -/
theorem find?_insert (ready : cache.Ready)
    (absent : cache.find? entry.selector entry.species selectorHash classHash = none) :
    (cache.insert entry selectorHash classHash).find? entry.selector entry.species
      selectorHash classHash = some entry := by
  rcases insert_stores ready entry selectorHash classHash with ⟨slot, probed, inside, stored, probes⟩
  have slots : (cache.insert entry selectorHash classHash).slots selectorHash classHash
      = cache.slots selectorHash classHash := by
    rw [MethodCache.slots, MethodCache.slots, stored, probes, Array.size_setIfInBounds]
  have here : (cache.insert entry selectorHash classHash).entryAt slot = entry := by
    rw [entryAt, stored, Array.getElem?_setIfInBounds_self_of_lt inside, Option.getD_some]
  have elsewhere (other : Nat) (apart : slot ≠ other) :
      (cache.insert entry selectorHash classHash).entryAt other = cache.entryAt other := by
    rw [entryAt, stored, Array.getElem?_setIfInBounds_ne apart, entryAt]
  rw [find?, slots]
  cases found : ((cache.slots selectorHash classHash).map
      (cache.insert entry selectorHash classHash).entryAt).find?
      fun stored => stored.selector = entry.selector ∧ stored.species = entry.species with
  | none =>
    have missed := List.find?_eq_none.mp found entry (List.mem_map.mpr ⟨slot, probed, here⟩)
    simp at missed
  | some other =>
    rcases List.mem_map.mp (List.mem_of_find?_eq_some found) with ⟨place, member, rfl⟩
    by_cases same : slot = place
    · rw [← same, here]
    · -- In the other probes the key was not there before.
      have matching := List.find?_some found
      rw [elsewhere place same] at matching
      exact absurd matching
        (List.find?_eq_none.mp absent _ (List.mem_map.mpr ⟨place, member, rfl⟩))

end MethodCache

namespace Machine

variable {selector species : Value} {before after : Machine}

/-- A lookup reads the same in two machines: the same hashes and classes of objects, and the same
methods from one class upward. -/
structure LooksAlike (selector species : Value) (before after : Machine) : Prop where
  specials : after.registers.specials = before.registers.specials
  size : after.heap.cells.size = before.heap.cells.size
  hash (value : Value) : after.heap.hashOf value = before.heap.hashOf value
  classes (value : Value) : (after.heap.get? value).map HeapObject.species
    = (before.heap.get? value).map HeapObject.species
  kept : ∀ above, before.heap.Ancestor species above →
    Heap.KeepsClass before.heap after.heap above

namespace LooksAlike

theorem of_heap (heap : after.heap = before.heap)
    (specials : after.registers.specials = before.registers.specials) :
    LooksAlike selector species before after where
  specials := specials
  size := by rw [heap]
  hash _ := by rw [heap]
  classes _ := by rw [heap]
  kept _ _ := heap ▸ ⟨rfl, rfl, fun _ _ => rfl, fun _ _ _ _ => rfl, fun _ _ _ _ _ _ _ => rfl⟩

theorem nil (alike : LooksAlike selector species before after) :
    after.registers.specials.nil = before.registers.specials.nil := by rw [alike.specials]

/-- The lookup goes on in the superclass. -/
theorem above {higher : Value} (alike : LooksAlike selector species before after)
    (next : before.heap.fetch species ClassField.superclass = .ok higher) :
    LooksAlike selector higher before after where
  specials := alike.specials
  size := alike.size
  hash := alike.hash
  classes := alike.classes
  kept _ ancestor := alike.kept _ (ancestor.of_above next)

/-- Nothing of it is counted. -/
theorem withCacheCounts (alike : LooksAlike selector species before after)
    (early late : CacheCounts) :
    LooksAlike selector species (before.withCacheCounts early) (after.withCacheCounts late) :=
  ⟨alike.specials, alike.size, alike.hash, alike.classes, alike.kept⟩

theorem ownMethod_eq (alike : LooksAlike selector species before after) {nil : Value} :
    after.heap.ownMethod selector nil species = before.heap.ownMethod selector nil species :=
  (alike.kept species .self).ownMethod_eq (alike.hash selector)

end LooksAlike

end Machine

namespace Run

open Machine

variable {selector species : Value} {before left after : Machine}

/-- An object has the same class. -/
theorem classOf_again (alike : before.LooksAlike selector species after) {value found : Value}
    (classified : classOf value before = .ok found before) :
    classOf value after = .ok found after := by
  rw [classOf] at classified ⊢
  split at classified
  · rename_i small
    rw [if_pos small]
    refine (bind_ok getRegisters_apply).trans ?_
    rw [alike.specials]
    cases (bind_ok getRegisters_apply).symm.trans classified
    rfl
  · rename_i isObject
    rw [if_neg isObject]
    have same := alike.classes value
    cases here : before.heap.get? value with
    | none =>
      have missing : before.heap.object value = .error (.invalidReference value) := by
        rw [Heap.object, here]
      cases (bind_error (readHeap_error missing)).symm.trans classified
    | some owner =>
      rw [here] at same
      rcases Option.map_eq_some_iff.mp same with ⟨other, there, equal⟩
      cases (bind_ok (readHeap_ok (Heap.object_eq_ok_iff.mpr here))).symm.trans classified
      refine (bind_ok (readHeap_ok (Heap.object_eq_ok_iff.mpr there))).trans ?_
      rw [equal]
      rfl

/-- Walks of the same length find the same. -/
theorem methodFrom_again {budget : Nat} {found : Option Value}
    (alike : before.LooksAlike selector species after)
    (walked : methodFrom selector budget species before = .ok found left) :
    ∃ counts, methodFrom selector budget species after = .ok found (after.withCacheCounts counts) := by
  induction budget generalizing species before after with
  | zero =>
    by_cases last : species = before.registers.specials.nil
    · subst last
      cases (methodFrom_nil 0).symm.trans walked
      exact ⟨after.registers.methodCache.counts, alike.nil ▸ methodFrom_nil 0⟩
    · rw [methodFrom, bind_ok getNil_apply, if_neg last] at walked
      cases walked
  | succ budget induction =>
    by_cases last : species = before.registers.specials.nil
    · subst last
      cases (methodFrom_nil (budget + 1)).symm.trans walked
      exact ⟨after.registers.methodCache.counts, alike.nil ▸ methodFrom_nil (budget + 1)⟩
    · rw [methodFrom_proper last] at walked
      rw [methodFrom_proper (alike.nil ▸ last), alike.ownMethod_eq, alike.nil]
      cases own : before.heap.ownMethod selector before.registers.specials.nil species with
      | error error =>
        rw [own] at walked
        cases walked
      | ok answer =>
        rw [own] at walked
        cases answer with
        | some method =>
          cases walked
          exact ⟨_, rfl⟩
        | none =>
          let counted := before.withCacheCounts
            before.registers.methodCache.countDictionaryProbe.counts
          have goesOn : (Run.fetch species ClassField.superclass >>= methodFrom selector budget)
              counted = .ok found left := walked
          cases next : counted.heap.fetch species ClassField.superclass with
          | error error => cases (bind_error (fetch_error next)).symm.trans goesOn
          | ok higher =>
            let later := after.withCacheCounts
              after.registers.methodCache.countDictionaryProbe.counts
            have above : later.heap.fetch species ClassField.superclass = .ok higher :=
              (alike.kept species .self).superclass.trans next
            rcases induction ((alike.above next).withCacheCounts _ _)
              ((bind_ok (fetch_ok next)).symm.trans goesOn) with ⟨counts, walks⟩
            exact ⟨counts, (bind_ok (fetch_ok above)).trans walks⟩

/-- A walk that has found a method sees its header, too. -/
theorem methodHeader?_alike {budget : Nat} {method : Value}
    (walked : methodFrom selector budget species before = .ok (some method) left)
    (alike : before.LooksAlike selector species after) :
    after.heap.methodHeader? method = before.heap.methodHeader? method := by
  have walks := (methodFrom_ensures before selector budget species _ _ walked).2
  exact walks.header_eq alike.kept

/-- What a lookup finds and leaves behind: an entry that was there; nothing; or a method that the
walk has found and that is remembered. -/
inductive LookedUp (machine : Machine) (selector species : Value) :
    Option CacheEntry → Machine → Prop
  | present {entry : CacheEntry}
      (held : machine.registers.methodCache.find? selector species
        (machine.heap.hashOf selector) (machine.heap.hashOf species) = some entry) :
      LookedUp machine selector species (some entry)
        (machine.withCacheCounts machine.registers.methodCache.countHit.counts)
  | missing {counts : CacheCounts}
      (absent : machine.registers.methodCache.find? selector species
        (machine.heap.hashOf selector) (machine.heap.hashOf species) = none)
      (walked : methodFrom selector (machine.heap.cells.size + 1) species
        (machine.withCacheCounts machine.registers.methodCache.countMiss.counts)
          = .ok none (machine.withCacheCounts counts)) :
      LookedUp machine selector species none (machine.withCacheCounts counts)
  | found {method : Value} {header : Option MethodHeader} {counts : CacheCounts}
      (absent : machine.registers.methodCache.find? selector species
        (machine.heap.hashOf selector) (machine.heap.hashOf species) = none)
      (walked : methodFrom selector (machine.heap.cells.size + 1) species
        (machine.withCacheCounts machine.registers.methodCache.countMiss.counts)
          = .ok (some method) (machine.withCacheCounts counts))
      (described : machine.heap.methodHeader? method = .ok header) :
      LookedUp machine selector species
        (some ⟨selector, species, method, (header.map MethodHeader.primitive).getD 0⟩)
        ((machine.withMethodCache (machine.registers.methodCache.insert
          ⟨selector, species, method, (header.map MethodHeader.primitive).getD 0⟩
          (machine.heap.hashOf selector) (machine.heap.hashOf species))).withCacheCounts counts)

theorem LookedUp.lookupMethod_eq {machine left : Machine} {found : Option CacheEntry}
    (lookedUp : LookedUp machine selector species found left) :
    lookupMethod selector species machine = .ok found left := by
  cases lookedUp with
  | present held => exact bind_ok (cachedMethod_some held)
  | missing absent walked =>
    refine (bind_ok (cachedMethod_none absent)).trans ((bind_ok getHeap_apply).trans ?_)
    exact bind_ok walked
  | @found method header counts absent walked described =>
    refine (bind_ok (cachedMethod_none absent)).trans ((bind_ok getHeap_apply).trans ?_)
    refine (bind_ok walked).trans ((bind_ok (readHeap_ok described)).trans ?_)
    exact congrArg (fun methodCache : MethodCache => EStateM.Result.ok _
      { machine with registers.methodCache := methodCache })
      (IgnoresCounts.insert_withCounts machine.registers.methodCache counts _ _ _)

/-- Whatever comes of a lookup has come about in one of these ways. -/
theorem lookedUp_of_ok {machine left : Machine} {found : Option CacheEntry}
    (looked : lookupMethod selector species machine = .ok found left) :
    LookedUp machine selector species found left := by
  cases present : machine.registers.methodCache.find? selector species
      (machine.heap.hashOf selector) (machine.heap.hashOf species) with
  | some entry =>
    cases (LookedUp.present present).lookupMethod_eq.symm.trans looked
    exact .present present
  | none =>
    let missed := machine.withCacheCounts machine.registers.methodCache.countMiss.counts
    have goesOn := ((bind_ok getHeap_apply).symm.trans
      ((bind_ok (cachedMethod_none present)).symm.trans looked))
    cases walked : methodFrom selector (machine.heap.cells.size + 1) species missed with
    | error stop between => cases (bind_error walked).symm.trans goesOn
    | ok method between =>
      rcases (methodFrom_ensures missed selector _ species _ _ walked).1 with ⟨counts, rfl⟩
      cases method with
      | none =>
        cases (LookedUp.missing present walked).lookupMethod_eq.symm.trans looked
        exact .missing present walked
      | some method =>
        cases described : machine.heap.methodHeader? method with
        | error error =>
          cases (bind_error (readHeap_error described)).symm.trans
            ((bind_ok walked).symm.trans goesOn)
        | ok header =>
          cases (LookedUp.found present walked described).lookupMethod_eq.symm.trans looked
          exact .found present walked described

namespace LookedUp

variable {found : Option CacheEntry} (lookedUp : LookedUp before selector species found left)

include lookedUp

theorem cacheApart : left = before.withMethodCache left.registers.methodCache := by
  cases lookedUp <;> rfl

/-- The same lookup elsewhere, with the same cache, finds the same and leaves the same cache. -/
theorem elsewhere (alike : before.LooksAlike selector species after)
    (same : after.registers.methodCache = before.registers.methodCache) :
    ∃ counts, lookupMethod selector species after = .ok found
      ((after.withMethodCache left.registers.methodCache).withCacheCounts counts) := by
  have again : after.registers.methodCache.find? selector species
      (after.heap.hashOf selector) (after.heap.hashOf species)
        = before.registers.methodCache.find? selector species
          (before.heap.hashOf selector) (before.heap.hashOf species) := by
    rw [same, alike.hash, alike.hash]
  have counted (early late : CacheCounts) :
      (after.withMethodCache { before.registers.methodCache with counts := early }).withCacheCounts
        late = after.withCacheCounts late := by
    rw [← same]
    rfl
  cases lookedUp with
  | present held =>
    refine ⟨after.registers.methodCache.countHit.counts, ?_⟩
    refine (LookedUp.present (again.trans held)).lookupMethod_eq.trans ?_
    exact congrArg _ (counted _ _).symm
  | missing absent walked =>
    rcases methodFrom_again (alike.withCacheCounts _ _) walked with ⟨counts, walks⟩
    rw [← alike.size] at walks
    refine ⟨counts, (LookedUp.missing (again.trans absent) walks).lookupMethod_eq.trans ?_⟩
    exact congrArg _ (counted _ _).symm
  | found absent walked described =>
    let missed := after.withCacheCounts after.registers.methodCache.countMiss.counts
    have alikeThere := alike.withCacheCounts before.registers.methodCache.countMiss.counts
      missed.registers.methodCache.counts
    rcases methodFrom_again alikeThere walked with ⟨counts, walks⟩
    have seen := (methodHeader?_alike walked alikeThere).trans described
    rw [← alike.size] at walks
    refine ⟨counts, (LookedUp.found (again.trans absent) walks seen).lookupMethod_eq.trans ?_⟩
    rw [same, alike.hash, alike.hash]
    rfl

/-- A second lookup, in the cache that the first one has left, finds the same and leaves it. -/
theorem later (alike : before.LooksAlike selector species after)
    (ready : before.registers.methodCache.Ready)
    (same : after.registers.methodCache = left.registers.methodCache) :
    ∃ counts, lookupMethod selector species after = .ok found (after.withCacheCounts counts) := by
  cases lookedUp with
  | present held =>
    refine ⟨_, (LookedUp.present ?_).lookupMethod_eq⟩
    rw [same, alike.hash, alike.hash]
    exact held
  | missing absent walked =>
    have again : after.registers.methodCache.find? selector species
        (after.heap.hashOf selector) (after.heap.hashOf species) = none := by
      rw [same, alike.hash, alike.hash]
      exact absent
    rcases methodFrom_again (alike.withCacheCounts _ _) walked with ⟨counts, walks⟩
    rw [← alike.size] at walks
    exact ⟨counts, (LookedUp.missing again walks).lookupMethod_eq⟩
  | found absent walked described =>
    refine ⟨_, (LookedUp.present ?_).lookupMethod_eq⟩
    rw [same, alike.hash, alike.hash]
    exact @MethodCache.find?_insert _ ⟨selector, species, _, _⟩ _ _ ready absent

end LookedUp

end Run

end Smalltalk

import Mathlib.Data.Nat.Bitwise
import Smalltalk.Proofs.Lookup.Repeated

namespace Smalltalk

/-! The method cache is a map that may forget. As long as an entry is only inserted for a key that
was not there, there is one slot for a key at most, and what a slot holds for a key was inserted
last for it and not flushed since. The key of the unused slots, which no message has, is the one
exception: every unused slot answers for it. -/

/-- The hashes of selectors and of classes, which stay the same. -/
structure CacheHashes where
  selector : Value → Nat
  species : Value → Nat

/-- What can be asked of a method cache. -/
inductive CacheCall where
  | clear
  | forgetMethod (method : Value)
  | forgetSelector (selector : Value)
  | lookup (selector species : Value)
  | insert (entry : CacheEntry)

/-- Whether an entry is for a key. -/
def CacheEntry.HasKey (entry : CacheEntry) (selector species : Value) : Prop :=
  entry.selector = selector ∧ entry.species = species

namespace MethodCache

/-- The probe sequence of a key. -/
def slotsFor (cache : MethodCache) (hashes : CacheHashes) (selector species : Value) : List Nat :=
  cache.slots (hashes.selector selector) (hashes.species species)

/-- What a lookup of a key answers. -/
def answer (cache : MethodCache) (hashes : CacheHashes) (selector species : Value) :
    Option CacheEntry :=
  (cache.lookup selector species (hashes.selector selector) (hashes.species species)).1

end MethodCache

namespace CacheCall

/-- The cache that a call leaves. -/
def perform (hashes : CacheHashes) (cache : MethodCache) : CacheCall → MethodCache
  | clear => cache.clear
  | forgetMethod method => cache.forgetMethod method
  | forgetSelector selector => cache.forgetSelector selector
  | lookup selector species =>
    (cache.lookup selector species (hashes.selector selector) (hashes.species species)).2
  | insert entry =>
    cache.insert entry (hashes.selector entry.selector) (hashes.species entry.species)

/-- The cache after some calls, the latest of which comes first. -/
def performAll (hashes : CacheHashes) (start : MethodCache) : List CacheCall → MethodCache
  | [] => start
  | call :: earlier => call.perform hashes (performAll hashes start earlier)

/-- Whether a call flushes an entry. -/
def forgets : CacheCall → CacheEntry → Bool
  | clear, _ => true
  | forgetMethod method, entry => entry.method = method
  | forgetSelector selector, entry => entry.selector = selector
  | lookup _ _, _ => false
  | insert _, _ => false

/-- Whether a call inserts an entry for a key. -/
def Inserts (selector species : Value) : CacheCall → Prop
  | insert entry => entry.HasKey selector species
  | _ => False

/-- An entry was inserted, and since then no entry was inserted for its key and no call has
flushed it. -/
inductive Stands (entry : CacheEntry) : List CacheCall → Prop
  | inserted (earlier : List CacheCall) : Stands entry (insert entry :: earlier)
  | later {calls : List CacheCall} {call : CacheCall} (before : Stands entry calls)
    (kept : call.forgets entry = false) (last : ¬call.Inserts entry.selector entry.species) :
    Stands entry (call :: calls)

/-- A lookup of a key has missed, and since then no entry was inserted for it. -/
inductive Missed (hashes : CacheHashes) (start : MethodCache) (selector species : Value) :
    List CacheCall → Prop
  | missed {calls : List CacheCall}
    (nothing : (performAll hashes start calls).answer hashes selector species = none) :
    Missed hashes start selector species (lookup selector species :: calls)
  | later {calls : List CacheCall} {call : CacheCall}
    (before : Missed hashes start selector species calls) (other : ¬call.Inserts selector species) :
    Missed hashes start selector species (call :: calls)

/-- Every entry is inserted after a lookup of its key has missed, and has a selector that is not
the one of unused slots. -/
inductive Proper (hashes : CacheHashes) (start : MethodCache) : List CacheCall → Prop
  | none : Proper hashes start []
  | insert {calls : List CacheCall} {entry : CacheEntry} (before : Proper hashes start calls)
    (used : entry.selector ≠ .zero)
    (missed : Missed hashes start entry.selector entry.species calls) :
    Proper hashes start (insert entry :: calls)
  | other {calls : List CacheCall} {call : CacheCall} (before : Proper hashes start calls)
    (other : ∀ entry, call ≠ CacheCall.insert entry) : Proper hashes start (call :: calls)

end CacheCall

namespace MethodCache

variable {hashes : CacheHashes} {start cache : MethodCache} {calls : List CacheCall}
  {entry : CacheEntry} {selector species : Value}

/-! ## Slots -/

/-- The slot that some steps along the probes of a key lead to. The first one mixes both hashes,
each step adds the hash of the selector, and of the result only the low bits count. -/
def stepped (size selectorHash classHash : Nat) : Nat → Nat
  | 0 => (selectorHash ^^^ classHash) &&& (size - 1)
  | steps + 1 => (stepped size selectorHash classHash steps + selectorHash) &&& (size - 1)

/-- In a cache whose size is a power of two, the slots are reached step by step. -/
theorem stepped_eq (order selectorHash classHash steps : Nat) :
    stepped (2 ^ order) selectorHash classHash steps =
      slotAt (2 ^ order) selectorHash classHash steps := by
  induction steps with
  | zero => rw [stepped, slotAt, Nat.and_two_pow_sub_one_eq_mod, Nat.zero_mul, Nat.add_zero]
  | succ steps induction =>
    rw [stepped, induction, slotAt, slotAt, Nat.and_two_pow_sub_one_eq_mod, Nat.mod_add_mod,
      Nat.add_assoc, Nat.succ_mul]

theorem answer_eq (cache : MethodCache) (hashes : CacheHashes) (selector species : Value) :
    cache.answer hashes selector species =
      cache.find? selector species (hashes.selector selector) (hashes.species species) := by
  rw [answer, lookup]
  split <;> simp_all

theorem answer_eq_none_iff :
    cache.answer hashes selector species = none ↔
      ∀ slot ∈ cache.slotsFor hashes selector species,
        ¬(cache.entryAt slot).HasKey selector species := by
  rw [answer_eq, find?, List.find?_eq_none]
  simp [slotsFor, CacheEntry.HasKey]

/-- What is answered is in a slot. -/
theorem exists_slot_of_answer (found : cache.answer hashes selector species = some entry) :
    entry.HasKey selector species ∧ ∃ slot, cache.entryAt slot = entry := by
  rw [answer_eq] at found
  have key := key_of_find? found
  rw [find?] at found
  rcases List.mem_map.mp (List.mem_of_find?_eq_some found) with ⟨slot, -, here⟩
  exact ⟨key, slot, here⟩

theorem entryAt_forget (selected : CacheEntry → Bool) (slot : Nat) :
    (cache.forget selected).entryAt slot =
      if selected (cache.entryAt slot) then .vacant else cache.entryAt slot := by
  rw [entryAt, entryAt, forget, Array.getElem?_map]
  cases cache.entries[slot]? with
  | none => simp
  | some entry => rfl

/-- An entry is stored in one of the probes of its key. -/
theorem exists_slot_insert (ready : cache.Ready) (entry : CacheEntry) :
    ∃ slot ∈ cache.slotsFor hashes entry.selector entry.species, ∀ other,
      ((CacheCall.insert entry).perform hashes cache).entryAt other =
        if other = slot then entry else cache.entryAt other := by
  rcases insert_stores ready entry (hashes.selector entry.selector) (hashes.species entry.species)
    with ⟨slot, probed, inside, stored, -⟩
  refine ⟨slot, probed, ?_⟩
  intro other
  rw [CacheCall.perform, entryAt, stored]
  by_cases same : other = slot
  · rw [if_pos same, same, Array.getElem?_setIfInBounds_self_of_lt inside, Option.getD_some]
  · rw [if_neg same, Array.getElem?_setIfInBounds_ne (Ne.symm same), entryAt]

end MethodCache

namespace CacheCall

variable {hashes : CacheHashes} {start cache : MethodCache} {calls : List CacheCall}
  {call : CacheCall} {entry : CacheEntry} {selector species : Value}

/-- What a call leaves in a slot, unless it is an insertion. -/
theorem entryAt_perform (other : ∀ entry, call ≠ insert entry) (slot : Nat) :
    (call.perform hashes cache).entryAt slot =
      if call.forgets (cache.entryAt slot) then .vacant else cache.entryAt slot := by
  cases call with
  | clear => exact MethodCache.entryAt_forget (fun _ => true) slot
  | forgetMethod method => exact MethodCache.entryAt_forget _ slot
  | forgetSelector selector => exact MethodCache.entryAt_forget _ slot
  | lookup selector species =>
    rw [perform, MethodCache.lookup]
    split <;> rfl
  | insert entry => exact absurd rfl (other entry)

/-- No call changes the size of the cache or the length of the probe sequences. -/
theorem perform_frame (cache : MethodCache) (call : CacheCall) :
    (call.perform hashes cache).entries.size = cache.entries.size ∧
      (call.perform hashes cache).probes = cache.probes := by
  cases call with
  | clear => exact ⟨Array.size_map, rfl⟩
  | forgetMethod method => exact ⟨Array.size_map, rfl⟩
  | forgetSelector selector => exact ⟨Array.size_map, rfl⟩
  | lookup selector species =>
    rw [perform, MethodCache.lookup]
    split <;> exact ⟨rfl, rfl⟩
  | insert entry =>
    rw [perform, MethodCache.insert]
    split <;> exact ⟨Array.size_setIfInBounds, rfl⟩

theorem slotsFor_perform (cache : MethodCache) (call : CacheCall) (selector species : Value) :
    (call.perform hashes cache).slotsFor hashes selector species =
      cache.slotsFor hashes selector species := by
  rcases perform_frame cache call with ⟨size, probes⟩
  rw [MethodCache.slotsFor, MethodCache.slotsFor, MethodCache.slots, MethodCache.slots, size,
    probes]

theorem ready_perform (ready : cache.Ready) (call : CacheCall) :
    (call.perform hashes cache).Ready := by
  cases call with
  | clear => exact ready.clear
  | forgetMethod method => exact ready.forget _
  | forgetSelector selector => exact ready.forget _
  | lookup selector species =>
    rw [perform, MethodCache.lookup]
    split <;> exact ready.withCounts _
  | insert entry => exact ready.insert entry _ _

/-! ## Filing -/

/-- How the cache is kept. A used slot is among the probes of its key, and its entry stands. There
is one slot for a key at most, and none for a key that was missed. -/
structure Filed (hashes : CacheHashes) (start : MethodCache) (calls : List CacheCall)
    (cache : MethodCache) : Prop where
  ready : cache.Ready
  placed : ∀ slot, cache.entryAt slot ≠ .vacant →
    slot ∈ cache.slotsFor hashes (cache.entryAt slot).selector (cache.entryAt slot).species
  stands : ∀ slot, cache.entryAt slot ≠ .vacant → Stands (cache.entryAt slot) calls
  alone : ∀ {selector species : Value} {first second : Nat},
    ¬CacheEntry.vacant.HasKey selector species → (cache.entryAt first).HasKey selector species →
      (cache.entryAt second).HasKey selector species → first = second
  absent : ∀ {selector species : Value}, ¬CacheEntry.vacant.HasKey selector species →
    Missed hashes start selector species calls →
      ∀ slot, ¬(cache.entryAt slot).HasKey selector species

theorem used_of_hasKey (proper : ¬CacheEntry.vacant.HasKey selector species)
    (key : entry.HasKey selector species) : entry ≠ .vacant := by
  rintro rfl
  exact proper key

/-- A lookup that misses has looked at the only place where the key could be. -/
theorem Filed.absent_of_answer (filed : Filed hashes start calls cache)
    (proper : ¬CacheEntry.vacant.HasKey selector species)
    (nothing : cache.answer hashes selector species = none) (slot : Nat) :
    ¬(cache.entryAt slot).HasKey selector species := by
  intro key
  have placed := filed.placed slot (used_of_hasKey proper key)
  rw [key.1, key.2] at placed
  exact MethodCache.answer_eq_none_iff.mp nothing slot placed key

theorem filed_start {size probes : Nat} (slots : 0 < size) (turn : 0 < probes) :
    Filed hashes (.ofSize size probes) [] (.ofSize size probes) := by
  have vacant (slot : Nat) : (MethodCache.ofSize size probes).entryAt slot = .vacant := by
    rw [MethodCache.entryAt, MethodCache.ofSize, Array.getElem?_replicate]
    split <;> rfl
  constructor
  · exact MethodCache.ready_ofSize slots turn
  · exact fun slot used => absurd (vacant slot) used
  · exact fun slot used => absurd (vacant slot) used
  · intro selector species first second proper key
    exact absurd (vacant first) (used_of_hasKey proper key)
  · intro selector species proper missed
    cases missed

theorem not_inserts (other : ∀ entry, call ≠ insert entry) : ¬call.Inserts selector species := by
  cases call with
  | insert entry => exact absurd rfl (other entry)
  | _ => exact id

/-- A call that inserts nothing leaves some of the entries where they are. -/
theorem Filed.other (filed : Filed hashes start calls (performAll hashes start calls))
    (other : ∀ entry, call ≠ insert entry) :
    Filed hashes start (call :: calls) (call.perform hashes (performAll hashes start calls)) := by
  let cache := performAll hashes start calls
  have kept {slot : Nat} (used : (call.perform hashes cache).entryAt slot ≠ .vacant) :
      call.forgets (cache.entryAt slot) = false ∧
        (call.perform hashes cache).entryAt slot = cache.entryAt slot := by
    rw [entryAt_perform other] at used ⊢
    split at used
    · exact absurd rfl used
    · rename_i left
      exact ⟨Bool.eq_false_iff.mpr left, if_neg left⟩
  have same {selector species : Value} {slot : Nat}
      (proper : ¬CacheEntry.vacant.HasKey selector species)
      (key : ((call.perform hashes cache).entryAt slot).HasKey selector species) :
      (cache.entryAt slot).HasKey selector species := by
    rw [← (kept (used_of_hasKey proper key)).2]
    exact key
  constructor
  · exact ready_perform filed.ready call
  · intro slot used
    rcases kept used with ⟨-, unchanged⟩
    rw [slotsFor_perform]
    rw [unchanged] at used ⊢
    exact filed.placed slot used
  · intro slot used
    rcases kept used with ⟨left, unchanged⟩
    rw [unchanged] at used ⊢
    exact .later (filed.stands slot used) left (not_inserts other)
  · intro selector species first second proper one another
    exact filed.alone proper (same proper one) (same proper another)
  · intro selector species proper missed slot key
    cases missed with
    | missed nothing => exact filed.absent_of_answer proper nothing slot (same proper key)
    | later before => exact filed.absent proper before slot (same proper key)

/-- An entry that was missed before is stored for its key, in place of another or of none. -/
theorem Filed.insert (filed : Filed hashes start calls (performAll hashes start calls))
    (used : entry.selector ≠ .zero)
    (missed : Missed hashes start entry.selector entry.species calls) :
    Filed hashes start (.insert entry :: calls)
      ((CacheCall.insert entry).perform hashes (performAll hashes start calls)) := by
  let cache := performAll hashes start calls
  let call := CacheCall.insert entry
  have proper : ¬CacheEntry.vacant.HasKey entry.selector entry.species := fun key => used key.1.symm
  have absent := filed.absent proper missed
  rcases MethodCache.exists_slot_insert filed.ready entry with ⟨place, probed, stored⟩
  have here : (call.perform hashes cache).entryAt place = entry := by rw [stored, if_pos rfl]
  have elsewhere {slot : Nat} (apart : slot ≠ place) :
      (call.perform hashes cache).entryAt slot = cache.entryAt slot := by rw [stored, if_neg apart]
  constructor
  · exact ready_perform filed.ready call
  · intro slot inUse
    rw [slotsFor_perform]
    by_cases same : slot = place
    · rw [same, here]
      exact probed
    · rw [elsewhere same] at inUse ⊢
      exact filed.placed slot inUse
  · intro slot inUse
    by_cases same : slot = place
    · rw [same, here]
      exact .inserted calls
    · rw [elsewhere same] at inUse ⊢
      apply Stands.later (filed.stands slot inUse) rfl
      exact fun key => absent slot ⟨key.1.symm, key.2.symm⟩
  · intro selector species first second wanted one another
    have lone {slot : Nat} (key : ((call.perform hashes cache).entryAt slot).HasKey selector species)
        (inserted : entry.HasKey selector species) : slot = place := by
      by_contra apart
      rw [elsewhere apart, ← inserted.1, ← inserted.2] at key
      exact absent slot key
    by_cases inserted : entry.HasKey selector species
    · exact (lone one inserted).trans (lone another inserted).symm
    · have apart {slot : Nat}
          (key : ((call.perform hashes cache).entryAt slot).HasKey selector species) :
          slot ≠ place := by
        rintro rfl
        rw [here] at key
        exact inserted key
      rw [elsewhere (apart one)] at one
      rw [elsewhere (apart another)] at another
      exact filed.alone wanted one another
  · intro selector species wanted again slot key
    cases again with
    | later before other =>
      by_cases same : slot = place
      · rw [same, here] at key
        exact other key
      · rw [elsewhere same] at key
        exact filed.absent wanted before slot key

theorem filed_of_proper {size probes : Nat} (slots : 0 < size) (turn : 0 < probes)
    (proper : Proper hashes (.ofSize size probes) calls) :
    Filed hashes (.ofSize size probes) calls (performAll hashes (.ofSize size probes) calls) := by
  induction proper with
  | none => exact filed_start slots turn
  | insert before used missed filed => exact filed.insert used missed
  | other before other filed => exact filed.other other

theorem performAll_size (hashes : CacheHashes) (start : MethodCache) (calls : List CacheCall) :
    (performAll hashes start calls).entries.size = start.entries.size := by
  induction calls with
  | nil => rfl
  | cons call calls induction => exact (perform_frame _ call).1.trans induction

/-- The method cache is a map with forgetting. After any calls by which entries are inserted only
for keys that were missed, every key but the one of unused slots is in one slot at most, and a hit
for it answers an entry for this key that stands. An entry that is inserted for a missed key is
found at once. All steps along the probes of a key, and the slot whose turn it is, stay inside. -/
theorem map_with_forgetting (hashes : CacheHashes) (order : Nat) {probes : Nat}
    (positive : 0 < probes) {calls : List CacheCall}
    (proper : Proper hashes (.ofSize (2 ^ order) probes) calls) :
    let cache := performAll hashes (.ofSize (2 ^ order) probes) calls
    (∀ selector species first second, ¬CacheEntry.vacant.HasKey selector species →
      (cache.entryAt first).HasKey selector species →
        (cache.entryAt second).HasKey selector species → first = second) ∧
    (∀ selector species entry, ¬CacheEntry.vacant.HasKey selector species →
      cache.answer hashes selector species = some entry →
        entry.HasKey selector species ∧ Stands entry calls) ∧
    (∀ entry, entry.selector ≠ .zero →
      Missed hashes (.ofSize (2 ^ order) probes) entry.selector entry.species calls →
        ((insert entry).perform hashes cache).answer hashes entry.selector entry.species =
          some entry) ∧
    cache.entries.size = 2 ^ order ∧ cache.turn < cache.probes ∧
    ∀ selectorHash classHash steps,
      MethodCache.stepped cache.entries.size selectorHash classHash steps =
          MethodCache.slotAt cache.entries.size selectorHash classHash steps ∧
        MethodCache.slotAt cache.entries.size selectorHash classHash steps < cache.entries.size := by
  intro cache
  have filed : Filed hashes (.ofSize (2 ^ order) probes) calls cache :=
    filed_of_proper (Nat.two_pow_pos order) positive proper
  have size : cache.entries.size = 2 ^ order :=
    (performAll_size hashes _ calls).trans Array.size_replicate
  refine ⟨?_, ?_, ?_, size, filed.ready.turn, ?_⟩
  · intro selector species first second wanted
    exact filed.alone wanted
  · intro selector species entry wanted found
    rcases MethodCache.exists_slot_of_answer found with ⟨key, slot, rfl⟩
    exact ⟨key, filed.stands slot (used_of_hasKey wanted key)⟩
  · intro entry used missed
    have wanted : ¬CacheEntry.vacant.HasKey entry.selector entry.species :=
      fun key => used key.1.symm
    rw [MethodCache.answer_eq]
    apply MethodCache.find?_insert filed.ready
    rw [← MethodCache.answer_eq, MethodCache.answer_eq_none_iff]
    exact fun slot _ => filed.absent wanted missed slot
  · intro selectorHash classHash steps
    rw [size]
    exact ⟨MethodCache.stepped_eq order selectorHash classHash steps,
      Nat.mod_lt _ (Nat.two_pow_pos order)⟩

/-- Hashes that are the same for all keys. -/
def crowded : CacheHashes := ⟨fun _ => 1, fun _ => 0⟩

/-- An entry for one of these keys. -/
def crowdedEntry (number : Nat) : CacheEntry :=
  ⟨.object number, .object 0, .object (number + 100), 0⟩

/-- Two probes are full when a third key comes. It takes the place of the first, which finds
another one when that is flushed. -/
theorem map_with_forgetting_crowded :
    ∃ calls, Proper crowded (.ofSize (2 ^ 2) 2) calls ∧
      Stands (crowdedEntry 3) calls ∧
      ((insert (crowdedEntry 1)).perform crowded
        (performAll crowded (.ofSize (2 ^ 2) 2) calls)).answer crowded (.object 1) (.object 0) =
          some (crowdedEntry 1) := by
  have filled (number : Nat) {calls : List CacheCall}
      (before : Proper crowded (.ofSize (2 ^ 2) 2) calls)
      (nothing : (performAll crowded (.ofSize (2 ^ 2) 2) calls).answer crowded (.object number)
        (.object 0) = none) :
      Proper crowded (.ofSize (2 ^ 2) 2) (insert (crowdedEntry number) ::
        lookup (.object number) (.object 0) :: calls) := by
    apply Proper.insert
    · exact before.other fun _ => CacheCall.noConfusion
    · exact Value.noConfusion
    · exact .missed nothing
  have three := filled 3 (filled 2 (filled 1 .none (by decide)) (by decide)) (by decide)
  have flushed : Proper crowded _ (forgetMethod (.object 102) :: _) :=
    three.other fun _ => CacheCall.noConfusion
  have again : Proper crowded _ (lookup (.object 1) (.object 0) :: _) :=
    flushed.other fun _ => CacheCall.noConfusion
  rcases map_with_forgetting crowded 2 (by decide) again with ⟨-, hit, found, -⟩
  refine ⟨_, again, ?_, ?_⟩
  · exact (hit (.object 3) (.object 0) (crowdedEntry 3) nofun (by decide +kernel)).2
  · exact found (crowdedEntry 1) nofun (.missed (by decide +kernel))

/-- Every unused slot answers for the selector and the class that mark it, although no entry was
inserted for them. -/
theorem unused_slots_answer :
    Proper ⟨fun _ => 0, fun _ => 0⟩ (.ofSize (2 ^ 4) 4) [] ∧
      (performAll ⟨fun _ => 0, fun _ => 0⟩ (.ofSize (2 ^ 4) 4) []).answer
        ⟨fun _ => 0, fun _ => 0⟩ .zero .zero = some .vacant ∧
      ¬Stands .vacant [] :=
  ⟨.none, by decide, nofun⟩

end CacheCall

end Smalltalk

import Smalltalk.Proofs.Lookup.Dispatch
import Smalltalk.Proofs.Primitive.Plain

namespace Smalltalk

/-! What the caches may remember of `at:` and `at:put:` while nothing changes in the
classes that are searched: the method cache, what a search would find for their
selectors, and the at-cache, the indexable parts of objects whose classes answer
these messages with the primitives for elements. -/

/-- The message that asks for an access. -/
def Access.message : Access → CommonMessage
  | .read => .atIndex
  | .write => .atIndexPut

/-- The primitive that an access is done by. -/
def Access.primitive (chars : Bool) : Access → Primitive
  | .read => .elementAt chars
  | .write => .setElementAt chars

instance Access.decidableForall {holds : Access → Prop} [∀ access, Decidable (holds access)] :
    Decidable (∀ access, holds access) :=
  decidable_of_iff (holds .read ∧ holds .write)
    ⟨fun both access => by cases access with | read => exact both.1 | write => exact both.2,
      fun all => ⟨all .read, all .write⟩⟩

/-- The indexable part of an object with a body, when its class has a description. -/
def IndexedPart.ofBody? (object : Value) (format : ClassFormat) (chars : Bool) (body : Body) :
    Option IndexedPart :=
  if format.isIndexable then
    match body with
    | .pointers fields =>
      if chars then none
      else some ⟨object, .pointers, format.fieldCount, fields.size - format.fieldCount⟩
    | .words words => if chars then none else some ⟨object, .words, 0, words.size⟩
    | .bytes bytes => some ⟨object, if chars then .chars else .bytes, 0, bytes.size⟩
    | .method _ _ => none
    | .float _ => none
  else none

/-- Whether the elements of a part appear as Characters. -/
def IndexedPart.hasChars (part : IndexedPart) : Bool := part.kind = .chars

namespace IndexedPart

variable {object : Value} {format : ClassFormat} {chars : Bool} {body other : Body}
  {part : IndexedPart}

/-- Only the shape of the body counts. -/
theorem ofBody?_of_sameShape (shape : body.SameShape other) :
    ofBody? object format chars other = ofBody? object format chars body := by
  cases shape <;> simp_all [ofBody?]

theorem of_ofBody? (found : ofBody? object format chars body = some part) :
    part.object = object ∧ part.hasChars = chars := by
  simp only [ofBody?] at found
  split at found
  · cases body <;> cases chars <;> simp at found <;> simp [← found, hasChars]
  · cases found

end IndexedPart

namespace Machine

/-- The selector of the message that asks for an access, with its hash. -/
def selectorOf (machine : Machine) (access : Access) : Except MemoryError (Value × Nat) := do
  let selector ← machine.heap.fetch machine.registers.specials.specialSelectors
    (access.message.index * 2)
  return (selector, machine.heap.hashOf selector)

/-- Whether an object is the selector of the message that asks for an access. -/
def Selects (machine : Machine) (access : Access) (selector : Value) : Prop :=
  selector.isObject ∧ machine.heap.fetch machine.registers.specials.specialSelectors
    (access.message.index * 2) = .ok selector

/-- The classes that a machine may search, apart from their superclasses. -/
def searched (machine : Machine) : List Value :=
  machine.registers.specials.smallIntegerClass :: machine.registers.lookupClass ::
    (machine.registers.methodCache.entries.toList.map CacheEntry.species
      ++ machine.heap.cells.toList.filterMap (·.map HeapObject.species))

/-- Whether what searches and accesses read is as it was before: the special objects,
the selectors that ask for accesses, and the classes that may be searched. -/
structure Undisturbed (before now : Machine) : Prop where
  specials : now.registers.specials = before.registers.specials
  selectors : ∀ access, now.selectorOf access = before.selectorOf access
  classes : ∀ species ∈ now.searched,
    Heap.DispatchesAlike before.registers.specials.nil before.heap now.heap species

/-- A selector and its hash are compared one after the other, or an evaluation compares all
that they are read from. -/
instance (first second : Except MemoryError (Value × Nat)) : Decidable (first = second) :=
  match first, second with
  | .ok (selector, hash), .ok (other, number) =>
    decidable_of_iff (selector = other ∧ hash = number) (by simp)
  | .error error, .error other => decidable_of_iff (error = other) (by simp)
  | .ok _, .error _ => .isFalse (by simp)
  | .error _, .ok _ => .isFalse (by simp)

instance (before now : Machine) : Decidable (before.Undisturbed now) :=
  decidable_of_iff
    (now.registers.specials = before.registers.specials ∧
      (∀ access, now.selectorOf access = before.selectorOf access) ∧
      ∀ species ∈ now.searched,
        Heap.DispatchesAlike before.registers.specials.nil before.heap now.heap species)
    ⟨fun ⟨specials, selectors, classes⟩ => ⟨specials, selectors, classes⟩,
      fun ⟨specials, selectors, classes⟩ => ⟨specials, selectors, classes⟩⟩

/-- Whether a part is that of an object, as the class of the object describes it, and
a search from that class finds the primitive that does the access in this way. -/
structure Vouches (base : Machine) (access : Access) (selector : Value) (object : HeapObject)
    (part : IndexedPart) : Prop where
  described : ∃ format, base.heap.classFormat object.species = .ok format ∧
    IndexedPart.ofBody? part.object format part.hasChars object.body = some part
  answered : ∃ method number,
    base.heap.Confirms base.registers.specials.nil ⟨selector, object.species, method, number⟩ ∧
    Primitive.ofNumber? number = some (access.primitive part.hasChars)

/-- Whether a machine remembers of accesses only what would be found in another one. -/
structure Remembers (base machine : Machine) : Prop where
  consistent : machine.heap.Consistent
  methods : ∀ entry ∈ machine.registers.methodCache.entries, ∀ access,
    base.Selects access entry.selector →
      base.heap.Confirms base.registers.specials.nil entry
  parts : ∀ access part, some part ∈ machine.registers.atCache.side access →
    ∀ selector, base.Selects access selector →
      ∃ object, machine.heap.get? part.object = some object ∧
        base.Vouches access selector object part

variable {base before now after machine : Machine} {access : Access} {selector : Value}

theorem Vouches.persists {old new : HeapObject} {part : IndexedPart}
    (vouches : base.Vouches access selector old part) (persists : old.Persists new) :
    base.Vouches access selector new part where
  described := by
    rcases vouches.described with ⟨format, described, same⟩
    refine ⟨format, persists.species ▸ described, ?_⟩
    rw [IndexedPart.ofBody?_of_sameShape persists.shape]
    exact same
  answered := persists.species ▸ vouches.answered

/-- A computation that remembers nothing leaves it so. -/
theorem Remembers.of_keeps (remembers : base.Remembers machine) (keeps : machine.Keeps after) :
    base.Remembers after where
  consistent := keeps.consistent
  methods entry member access selects := by
    have used := CacheEntry.not_isVacant (Value.not_isSmall selects.1)
    exact remembers.methods entry (keeps.methods entry member used) access selects
  parts access part member selector selects := by
    rcases remembers.parts access part (keeps.parts access part member) selector selects with
      ⟨object, here, vouches⟩
    rcases keeps.objects access part member object here with ⟨later, there, persists⟩
    exact ⟨later, there, vouches.persists persists⟩

theorem selectorOf_eq_ok_iff {hash : Nat} :
    machine.selectorOf access = .ok (selector, hash) ↔
      machine.heap.fetch machine.registers.specials.specialSelectors (access.message.index * 2)
        = .ok selector ∧ machine.heap.hashOf selector = hash := by
  rw [selectorOf, bind_eq_ok_iff]
  constructor
  · intro found
    rcases found with ⟨value, fetched, same⟩
    cases same
    exact ⟨fetched, rfl⟩
  · intro found
    rcases found with ⟨fetched, rfl⟩
    exact ⟨selector, fetched, rfl⟩

/-- A selector that asks for an access goes on doing so, with the same hash. -/
theorem Undisturbed.selects (undisturbed : before.Undisturbed now)
    (selects : before.Selects access selector) :
    now.Selects access selector ∧ now.heap.hashOf selector = before.heap.hashOf selector := by
  have known := (undisturbed.selectors access).trans (selectorOf_eq_ok_iff.mpr ⟨selects.2, rfl⟩)
  rcases selectorOf_eq_ok_iff.mp known with ⟨fetched, hash⟩
  exact ⟨⟨selects.1, fetched⟩, hash⟩

theorem Undisturbed.selects_iff (undisturbed : before.Undisturbed now) :
    now.Selects access selector ↔ before.Selects access selector := by
  refine ⟨fun selects => ?_, fun selects => (undisturbed.selects selects).1⟩
  have known := (undisturbed.selectors access).symm.trans
    (selectorOf_eq_ok_iff.mpr ⟨selects.2, rfl⟩)
  exact ⟨selects.1, (selectorOf_eq_ok_iff.mp known).1⟩

/-- Nothing is disturbed by a lookup, which remembers at most a class that is searched
anyway. -/
theorem Undisturbed.of_subset (undisturbed : before.Undisturbed now)
    (specials : after.registers.specials = now.registers.specials)
    (heap : after.heap = now.heap)
    (subset : ∀ species ∈ after.searched, species ∈ now.searched) :
    before.Undisturbed after where
  specials := specials.trans undisturbed.specials
  selectors access := by
    rw [← undisturbed.selectors, selectorOf, selectorOf, heap, specials]
  classes species member := heap ▸ undisturbed.classes species (subset species member)

/-- What would be found before is what would be found now. -/
theorem Undisturbed.confirms_iff (undisturbed : before.Undisturbed now) {entry : CacheEntry}
    (alike : Heap.DispatchesAlike before.registers.specials.nil before.heap now.heap entry.species)
    (selects : before.Selects access entry.selector) :
    now.heap.Confirms now.registers.specials.nil entry ↔
      before.heap.Confirms before.registers.specials.nil entry := by
  have hash := (undisturbed.selects selects).2
  rw [undisturbed.specials]
  exact ⟨alike.symm.confirms hash.symm, alike.confirms hash⟩

/-- The same machine with another method cache. -/
def withMethodCache (machine : Machine) (cache : MethodCache) : Machine :=
  { machine with registers.methodCache := cache }

end Machine

namespace Run

variable {base machine : Machine} {selector species : Value}

/-- How a lookup leaves a machine that remembers what would be found in another one. -/
structure LooksUp (base machine : Machine) (selector species : Value) (found : Option CacheEntry)
    (after : Machine) : Prop where
  same : ∃ cache, after = machine.withMethodCache cache
  remembers : base.Remembers after
  searched : ∀ other ∈ after.searched, other ∈ machine.searched ∨ other = species
  confirms : ∀ entry, found = some entry → ∀ access, base.Selects access selector →
    base.heap.Confirms base.registers.specials.nil
      ⟨selector, species, entry.method, entry.primitive⟩

namespace LooksUp

variable {cache : MethodCache} {found : Option CacheEntry}

/-- Counting remembers nothing. -/
theorem of_entries (remembers : base.Remembers machine)
    (entries : cache.entries = machine.registers.methodCache.entries)
    (confirms : ∀ entry, found = some entry → ∀ access, base.Selects access selector →
      base.heap.Confirms base.registers.specials.nil
        ⟨selector, species, entry.method, entry.primitive⟩) :
    LooksUp base machine selector species found (machine.withMethodCache cache) where
  same := ⟨cache, rfl⟩
  remembers := remembers.of_keeps (.of_same remembers.consistent rfl rfl rfl entries rfl)
  searched other member := by
    simp only [Machine.searched, Machine.withMethodCache, entries] at member
    exact .inl member
  confirms := confirms

/-- What was found is remembered. -/
theorem of_insert (remembers : base.Remembers machine) {entry : CacheEntry}
    (entries : cache.entries = machine.registers.methodCache.entries)
    (key : entry.selector = selector ∧ entry.species = species)
    (confirms : ∀ access, base.Selects access selector →
      base.heap.Confirms base.registers.specials.nil entry) (selectorHash classHash : Nat) :
    LooksUp base machine selector species (some entry)
      (machine.withMethodCache (cache.insert entry selectorHash classHash)) where
  same := ⟨_, rfl⟩
  remembers :=
    { consistent := remembers.consistent
      methods := fun stored member access selects => by
        rcases MethodCache.mem_entries_insert member with old | rfl
        · exact remembers.methods stored (entries ▸ old) access selects
        · exact confirms access (key.1 ▸ selects)
      parts := remembers.parts }
  searched other member := by
    simp only [Machine.searched, Machine.withMethodCache, List.mem_cons, List.mem_append,
      List.mem_map] at member ⊢
    rcases member with same | same | ⟨stored, inside, same⟩ | inside
    · exact .inl (.inl same)
    · exact .inl (.inr (.inl same))
    · rcases MethodCache.mem_entries_insert (Array.mem_toList_iff.mp inside) with old | rfl
      · exact .inl (.inr (.inr (.inl ⟨stored, Array.mem_toList_iff.mpr (entries ▸ old), same⟩)))
      · exact .inr (same.symm.trans key.2)
    · exact .inl (.inr (.inr (.inr inside)))
  confirms := by
    intro _ same access selects
    cases same
    have known := confirms access selects
    rw [← key.1, ← key.2]
    exact known

end LooksUp

/-- A lookup in a class that is searched remembers what would be found. -/
theorem lookupMethod_ensures (remembers : base.Remembers machine)
    (undisturbed : base.Undisturbed machine)
    (alike : Heap.DispatchesAlike base.registers.specials.nil base.heap machine.heap species) :
    (lookupMethod selector species).Ensures machine
      (LooksUp base machine selector species) := by
  cases present : machine.registers.methodCache.find? selector species
      (machine.heap.hashOf selector) (machine.heap.hashOf species) with
  | some entry =>
    refine .bindOk (cachedMethod_some present) (.pure (.of_entries remembers rfl ?_))
    intro _ same access selects
    cases same
    rcases MethodCache.key_of_find? present with ⟨one, other⟩
    have used := CacheEntry.not_isVacant (one ▸ Value.not_isSmall selects.1)
    have confirms := remembers.methods entry (MethodCache.mem_of_find? present used) access
      (one.symm ▸ selects)
    rw [← one, ← other]
    exact confirms
  | none =>
    refine .bindOk (cachedMethod_none present) ?_
    refine (ensures_getHeap _).bindExactly ?_
    refine (methodFrom_ensures _ selector _ species).bind fun found after searched => ?_
    rcases searched with ⟨⟨counts, rfl⟩, walks⟩
    cases found with
    | none => exact .pure (.of_entries remembers rfl (by simp))
    | some method =>
      refine (ensures_readHeap _ _).bindTo fun header known => ?_
      let primitive := (header.map MethodHeader.primitive).getD 0
      let entry : CacheEntry := ⟨selector, species, method, primitive⟩
      let counted : MethodCache := { machine.registers.methodCache.countMiss with counts }
      have number : machine.heap.primitiveOf method = .ok primitive := by
        rw [Heap.primitiveOf]
        exact congrArg (· >>= _) known
      have confirms (access : Access) (selects : base.Selects access entry.selector) :
          base.heap.Confirms base.registers.specials.nil entry :=
        (undisturbed.confirms_iff alike selects).mp ⟨walks, number⟩
      have remembered : LooksUp base machine selector species (some entry)
          (machine.withMethodCache (counted.insert entry (machine.heap.hashOf selector)
            (machine.heap.hashOf species))) :=
        @LooksUp.of_insert base machine selector species counted remembers entry rfl ⟨rfl, rfl⟩
          confirms _ _
      refine (ensures_modify _ _).bindChange fun _ => ?_
      exact .pure remembered

end Run

end Smalltalk

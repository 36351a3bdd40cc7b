import Smalltalk.Machine.Lookup
import Smalltalk.Proofs.Machine.Moves

namespace Smalltalk

/-! Looking up a method leads to a method that is visible, because every entry of
the method cache is. That takes a selector that is no small integer: the cache
marks its vacant slots with one and does not show what stands beside it. -/

theorem Registers.lookupClass_of_flushed {registers last : Registers}
    (flushed : Flushed registers last) : last.lookupClass = registers.lookupClass := by
  induction flushed with
  | refl => rfl
  | flush _ induction => exact induction

theorem Value.not_isSmall {value : Value} (isObject : value.isObject) : value.isSmall = false := by
  cases value with
  | small n => cases isObject
  | object slot => rfl

/-- An entry for a selector that is an object is used. -/
theorem CacheEntry.not_isVacant {entry : CacheEntry} (isObject : entry.selector.isSmall = false) :
    entry.isVacant = false := by
  rw [isVacant, decide_eq_false_iff_not]
  intro vacant
  rw [vacant] at isObject
  cases isObject

namespace MethodCache

variable {cache : MethodCache}

/-- A used entry that a lookup answers is one of the cache's entries. -/
theorem mem_of_find? {selector species : Value} {selectorHash classHash : Nat}
    {entry : CacheEntry} (found : cache.find? selector species selectorHash classHash = some entry)
    (used : entry.isVacant = false) : entry ∈ cache.entries := by
  have member := List.mem_of_find?_eq_some found
  rcases List.mem_map.mp member with ⟨slot, -, same⟩
  rw [entryAt] at same
  cases inside : cache.entries[slot]? with
  | none =>
    rw [inside] at same
    subst same
    cases used
  | some stored =>
    rw [inside] at same
    cases same
    exact Array.mem_of_getElem? inside

theorem values_setIfInBounds {entries : Array CacheEntry} {slot : Nat} {entry : CacheEntry}
    {value : Value}
    (member : value ∈ (entries.setIfInBounds slot entry).toList.flatMap CacheEntry.values) :
    value ∈ entries.toList.flatMap CacheEntry.values ∨ value ∈ entry.values := by
  rcases List.mem_flatMap.mp member with ⟨stored, inside, held⟩
  rw [Array.toList_setIfInBounds] at inside
  rcases List.mem_or_eq_of_mem_set inside with old | rfl
  · exact .inl (List.mem_flatMap.mpr ⟨stored, old, held⟩)
  · exact .inr held

/-- An insertion adds the values of its entry at most. -/
theorem values_insert {entry : CacheEntry} {selectorHash classHash : Nat} {value : Value}
    (member : value ∈ (cache.insert entry selectorHash classHash).values) :
    value ∈ cache.values ∨ value ∈ entry.values := by
  rw [insert] at member
  split at member <;> exact values_setIfInBounds member

/-- Forgetting adds nothing. -/
theorem values_forget {selected : CacheEntry → Bool} {value : Value}
    (member : value ∈ (cache.forget selected).values) : value ∈ cache.values := by
  rcases List.mem_flatMap.mp member with ⟨entry, inside, held⟩
  simp only [forget, Array.toList_map, List.mem_map] at inside
  rcases inside with ⟨old, stored, rfl⟩
  split at held
  · exact absurd held (by simp [CacheEntry.values, CacheEntry.isVacant, CacheEntry.vacant])
  · exact List.mem_flatMap.mpr ⟨old, stored, held⟩

end MethodCache

namespace Run

variable {scope : Scope}

theorem methodFrom_stays {selector species : Value} (seen : scope.Sees species) (budget : Nat) :
    Stays scope (methodFrom selector budget species) fun found =>
      ∀ method, found = some method → scope.Sees method := by
  induction budget generalizing species with
  | zero =>
    unfold methodFrom
    apply getNil_stays.bind
    intro nil _
    exact .ite (fun _ => .pure (by simp)) fun _ => .throw
  | succ budget induction =>
    unfold methodFrom
    apply getNil_stays.bind
    intro nil none
    refine .ite (fun _ => .pure (by simp)) fun _ => ?_
    refine .bind (modifyRegisters_stays fun _ within => { within with }) fun _ _ => ?_
    apply (fetch_stays seen _).bind
    intro dictionary known
    have answered : Stays scope (readHeap (·.methodAt? dictionary selector nil)) fun found =>
        ∀ method, found = some method → scope.Sees method := by
      apply readHeap_stays
      intro heap result within found method same
      subst same
      rcases Heap.methodAt?_eq_some found with ⟨owner, methods, place, here, either, fetched⟩
      refine within.sees_fetch ?_ fetched
      rcases either with member | rfl
      · exact within.seesInto known here methods member
      · exact none
    apply answered.bind
    intro found visible
    cases found with
    | some method => exact .pure (by simpa using visible)
    | none => exact (fetch_stays seen _).bind fun above higher => induction higher

theorem cachedMethod_stays {selector : Value} (isObject : selector.isSmall = false)
    (species : Value) :
    Stays scope (cachedMethod selector species) fun found =>
      ∀ entry, found = some entry → scope.Sees entry.method := by
  apply modifyGet_stays
  intro machine within
  simp only [MethodCache.lookup]
  split
  · rename_i entry found
    refine ⟨?_, within.heap, { within.registers with }⟩
    intro _ same
    cases same
    have used := CacheEntry.not_isVacant ((MethodCache.key_of_find? found).1 ▸ isObject)
    exact (within.registers.sees_cached (MethodCache.mem_of_find? found used) used).2.2
  · exact ⟨by simp, within.heap, { within.registers with }⟩

theorem rememberMethod_stays {entry : CacheEntry} (selector : scope.Sees entry.selector)
    (species : scope.Sees entry.species) (method : scope.Sees entry.method) :
    Stays scope (rememberMethod entry) fun _ => True := by
  refine modify_stays fun machine within =>
    ⟨within.heap, { within.registers with methodCache := fun value member => ?_ }⟩
  rcases MethodCache.values_insert member with old | new
  · exact within.registers.methodCache value old
  · rw [CacheEntry.values] at new
    split at new
    · cases new
    · simp only [List.mem_cons, List.not_mem_nil, or_false] at new
      rcases new with rfl | rfl | rfl
      · exact selector
      · exact species
      · exact method

theorem lookupMethod_stays {selector species : Value} (isObject : selector.isSmall = false)
    (known : scope.Sees selector) (seen : scope.Sees species) :
    Stays scope (lookupMethod selector species) fun found =>
      ∀ entry, found = some entry → scope.Sees entry.method := by
  apply (cachedMethod_stays isObject species).bind
  intro cached visible
  cases cached with
  | some entry => exact .pure visible
  | none =>
    apply getHeap_stays.bind
    intro heap _
    refine (methodFrom_stays seen _).bind fun found visible => ?_
    cases found with
    | none => exact .pure (by simp)
    | some method =>
      have runs : scope.Sees method := visible method rfl
      refine .bind (readHeap_stays fun _ _ _ _ => trivial) fun header _ => ?_
      apply (rememberMethod_stays known seen runs).bind
      intro _ _
      exact .pure (by simpa using runs)

theorem inheritsFrom_stays (ancestor : Value) (budget : Nat) {species : Value}
    (seen : scope.Sees species) :
    Stays scope (inheritsFrom ancestor budget species) fun _ => True := by
  induction budget generalizing species with
  | zero =>
    apply getNil_stays.bind
    intro _ _
    refine .ite (fun _ => .pure trivial) fun _ => ?_
    exact .ite (fun _ => .pure trivial) fun _ => .throw
  | succ budget induction =>
    apply getNil_stays.bind
    intro _ _
    refine .ite (fun _ => .pure trivial) fun _ => ?_
    refine .ite (fun _ => .pure trivial) fun _ => ?_
    exact (fetch_stays seen _).bind fun _ higher => induction higher

/-! ## Finding the method of a message

The class in which a lookup starts, and the selector that is to be sent instead,
are needed after objects were made. The register of the class and the special
objects anchor them. -/

/-- A way to search for a method stays in a scope and does not touch the register
of the class in which the lookup started. -/
def Searches (resolve : Resolver) : Prop :=
  ∀ scope machine species, machine.Within scope → scope.Sees species →
    (resolve species).Ensures machine fun _ after =>
      after.Within scope ∧ after.registers.lookupClass = machine.registers.lookupClass

/-- Copying operands changes one object and no register. -/
theorem copyOperands_ensures (machine : Machine) (target : Value) (count index : Nat) :
    (copyOperands target count index).Ensures machine fun _ after =>
      after.registers = machine.registers ∧
        ∀ other, other ≠ target → after.heap.get? other = machine.heap.get? other := by
  induction count generalizing machine index with
  | zero => exact .pure ⟨rfl, fun _ _ => rfl⟩
  | succ count induction =>
    refine (ensures_operand machine count).bindTo fun value _ => ?_
    refine (ensures_store machine target index value).bindTo fun _ _ => ?_
    refine (induction _ (index + 1)).mono fun _ after ended => ⟨ended.1, fun other different => ?_⟩
    exact (ended.2 other different).trans (machine.heap.get?_update_other different.symm _)

theorem messageHasLookupClass_ensures (machine : Machine) :
    messageHasLookupClass.Ensures machine fun _ after => after = machine := by
  refine (ensures_getRegisters machine).bindExactly ?_
  refine (ensures_readHeap machine _).bindTo fun _ _ => ?_
  exact .pure rfl

section

variable {invariant : Machine → Prop}

theorem copyOperands_maintains
    (stores : ∀ object index value, Maintains invariant (store object index value) fun _ => True)
    (target : Value) (count index : Nat) :
    Maintains invariant (copyOperands target count index) fun _ => True := by
  induction count generalizing index with
  | zero => exact .pure trivial
  | succ count induction =>
    have read : Maintains invariant (operand count) fun _ => True := by
      refine maintains_getRegisters.bind fun registers _ => ?_
      exact .ite (fun _ => maintains_readHeap) fun _ => .fail
    refine read.bind fun value _ => ?_
    exact (stores target index value).bind fun _ _ => induction _

/-- Packing a message makes objects, writes to them and to the stack, and moves the stack
pointer. -/
theorem packMessage_maintains
    (registers : ∀ object, Maintains invariant (register object) fun _ => True)
    (stores : ∀ object index value, Maintains invariant (store object index value) fun _ => True)
    (moves : ∀ machine sp argumentCount, invariant machine →
      invariant { machine with registers := { machine.registers with sp, argumentCount } })
    (lookupClass : Value) : Maintains invariant (packMessage lookupClass) fun _ => True := by
  have hasLookupClass : Maintains invariant messageHasLookupClass fun _ => True :=
    maintains_getRegisters.bind fun _ _ => maintains_readHeap.bind fun _ _ => .pure trivial
  have instantiated (species nil : Value) (size : Nat) :
      Maintains invariant (onHeap (HeapM.instantiate species size nil)) fun _ => True := by
    rw [HeapM.instantiate, onHeap_read]
    refine maintains_readHeap.bind fun description _ => ?_
    cases description.int? with
    | none =>
      intro _ _ _ _ stopped
      cases stopped
    | some bits => exact registers _
  refine maintains_getRegisters.bind fun first _ => ?_
  refine (instantiated _ _ _).bind fun arguments _ => ?_
  refine (copyOperands_maintains stores arguments _ 0).bind fun _ _ => ?_
  refine hasLookupClass.bind fun _ _ => (registers _).bind fun message _ => ?_
  have dropped : Maintains invariant (drop first.argumentCount) fun _ => True :=
    maintains_modifyRegisters fun machine holds => moves machine _ _ holds
  have pushed : Maintains invariant (push message) fun _ => True := by
    refine .bind (maintains_modifyRegisters fun machine holds => moves machine _ _ holds) fun _ _ => ?_
    exact maintains_getRegisters.bind fun _ _ => stores _ _ _
  refine dropped.bind fun _ _ => pushed.bind fun _ _ => ?_
  exact maintains_modifyRegisters fun machine holds => moves machine _ _ holds

end

/-- Packing a message makes two objects, and what was anchored before remains in
sight. -/
theorem packMessage_ensures {machine : Machine} (within : machine.Within scope)
    {lookupClass : Value} (start : machine.Anchors lookupClass) :
    (packMessage lookupClass).Ensures machine fun _ after =>
      ∃ later, later.Narrows scope ∧ after.Within later ∧
        ∀ other, machine.Anchors other → later.Sees other := by
  have register {value : Value} (member : value ∈ machine.registers.forget.values)
      (seen : scope.Sees value) : machine.Anchors value :=
    Machine.anchors_of_mem member (within.heap.holds seen)
  have selector : machine.Anchors machine.registers.messageSelector :=
    register (by simp [Registers.values_forget]) within.registers.messageSelector
  have messageClass : machine.Anchors machine.registers.specials.messageClass :=
    register (by simp [Registers.values_forget, Specials.values])
      (within.registers.specials _ (by simp [Specials.values]))
  refine (ensures_getRegisters machine).bindExactly ?_
  refine (instantiate_ensures within (within.registers.specials _ (by simp [Specials.values]))
    within.registers.sees_nil _).bind fun arguments first new => ?_
  rcases new with ⟨middle, made⟩
  refine ((copyOperands_stays arguments _ 0 first made.within).and
    (copyOperands_ensures first arguments _ 0)).bind fun _ second copied => ?_
  rcases copied with ⟨⟨inside, -⟩, same, others⟩
  -- The operands went into the new array, which anchors nothing.
  have anchored {other : Value} (before : machine.Anchors other) : second.Anchors other := by
    apply before.replay (same ▸ made.flushed)
    intro other early
    exact (others other (made.fresh other early)).trans (made.same other early)
  refine (messageHasLookupClass_ensures second).bindChange fun hasClass => ?_
  have seen : ∀ value ∈ (if hasClass then
        #[machine.registers.messageSelector, arguments, lookupClass]
      else #[machine.registers.messageSelector, arguments]), middle.Sees value := by
    intro value member
    have either : value = machine.registers.messageSelector ∨ value = arguments ∨
        value = lookupClass := by
      split at member <;> simp at member <;> tauto
    rcases either with rfl | rfl | rfl
    · exact made.kept _ selector
    · exact made.sees
    · exact made.kept _ start
  refine (register_ensures inside (Scope.seesInto_of_pointers (made.kept _ messageClass) rfl
    seen)).bind fun message third registered => ?_
  rcases registered with ⟨later, gained⟩
  have rest : Stays later (do
      drop machine.registers.argumentCount
      push message
      modifyRegisters fun registers => { registers with argumentCount := 1 }) fun _ => True := by
    apply (drop_stays _).bind
    intro _ _
    refine (push_stays gained.sees).bind fun _ _ => ?_
    exact modifyRegisters_stays fun _ within => { within with }
  refine (rest third gained.within).mono fun _ after ended => ?_
  refine ⟨later, gained.narrows.trans made.narrows, ended.1, fun other before => ?_⟩
  exact gained.kept other (anchored before)

theorem failUnderstanding_ensures (machine : Machine) (selector : Value) :
    (failUnderstanding selector).Ensures machine fun _ _ => False :=
  (ensures_get machine).bindExactly .fail

theorem failUnderstanding_stays (selector : Value) :
    Stays scope (failUnderstanding selector) fun _ => False :=
  get_stays.bind fun _ _ => .fail

/-- Finding the method of a message whose lookup has just been started. -/
theorem findMethodBy_ensures {resolve : Resolver} (searches : Searches resolve) {machine : Machine}
    (within : machine.Within scope) :
    (findMethodBy resolve machine.registers.lookupClass).Ensures machine fun _ after =>
      ∃ later : Scope, later.Narrows scope ∧ after.Within later := by
  refine (searches scope machine _ within within.registers.lookupClass).bind
    fun found first searched => ?_
  rcases searched with ⟨inside, same⟩
  rw [← same]
  split
  · exact .pure ⟨scope, .refl scope, inside⟩
  · refine (ensures_getRegisters first).bindExactly ?_
    have anchored {value : Value} (member : value ∈ first.registers.forget.values)
        (seen : scope.Sees value) : first.Anchors value :=
      Machine.anchors_of_mem member (inside.heap.holds seen)
    have start : first.Anchors first.registers.lookupClass :=
      anchored (by simp [Registers.values_forget]) inside.registers.lookupClass
    have array : first.Anchors first.registers.specials.array :=
      anchored (by simp [Registers.values_forget, Specials.values])
        (inside.registers.specials _ (by simp [Specials.values]))
    refine (ensures_specialObject first _).bindTo fun doesNotUnderstand fetched => ?_
    have instead : first.Anchors doesNotUnderstand :=
      Machine.anchors_of_fetch inside.heap.closed array fetched
    have again : (do
        packMessage first.registers.lookupClass
        modifyRegisters fun registers =>
          { registers with messageSelector := doesNotUnderstand }
        unless ← resolve first.registers.lookupClass do
          failUnderstanding doesNotUnderstand : Run Unit).Ensures first fun _ after =>
          ∃ later : Scope, later.Narrows scope ∧ after.Within later := by
      refine (packMessage_ensures inside start).bind fun _ second message => ?_
      rcases message with ⟨later, narrows, packed, kept⟩
      refine (ensures_modifyRegisters second _).bindChange fun _ => ?_
      refine .bind (searches later _ _ ⟨packed.heap,
        { packed.registers with messageSelector := kept _ instead }⟩ (kept _ start))
        fun found third searched => ?_
      split
      · exact .pure ⟨later, narrows, searched.1⟩
      · exact (failUnderstanding_stays _ third searched.1).mono fun _ _ absurd => absurd.2.elim
    split
    · exact .bind (failUnderstanding_stays _ first inside) fun _ _ absurd => absurd.2.elim
    · exact again

end Run

namespace Run

variable {machine : Machine}

/-! ## Lookups change nothing but the method cache -/

/-- The machine with another method cache. -/
abbrev CacheApart (machine after : Machine) : Prop :=
  ∃ methodCache, after = { machine with registers := { machine.registers with methodCache } }

theorem methodFrom_cacheApart (selector : Value) (budget : Nat) (species : Value) :
    Maintains (CacheApart machine) (methodFrom selector budget species) fun _ => True := by
  induction budget generalizing species with
  | zero =>
    rw [methodFrom]
    exact maintains_getNil.bind fun _ _ => .ite (fun _ => .pure trivial) fun _ => .throw
  | succ budget induction =>
    rw [methodFrom]
    refine maintains_getNil.bind fun nil _ => .ite (fun _ => .pure trivial) fun _ => ?_
    refine .bind (maintains_modifyRegisters ?_) fun _ _ => ?_
    · rintro _ ⟨methodCache, rfl⟩
      exact ⟨_, rfl⟩
    refine maintains_readHeap.bind fun dictionary _ => ?_
    refine maintains_readHeap.bind fun found _ => ?_
    cases found with
    | some method => exact .pure trivial
    | none => exact maintains_readHeap.bind fun above _ => induction above

theorem lookupMethod_cacheApart (selector species : Value) :
    Maintains (CacheApart machine) (lookupMethod selector species) fun _ => True := by
  have cached : Maintains (CacheApart machine) (cachedMethod selector species) fun _ => True := by
    refine maintains_modifyGet ?_
    rintro _ ⟨methodCache, rfl⟩
    exact ⟨_, rfl⟩
  refine cached.bind fun found _ => ?_
  cases found with
  | some entry => exact .pure trivial
  | none =>
    refine maintains_getHeap.bind fun heap _ => ?_
    refine (methodFrom_cacheApart _ _ _).bind fun found _ => ?_
    cases found with
    | none => exact .pure trivial
    | some method =>
      refine maintains_readHeap.bind fun header _ => ?_
      refine .bind (maintains_modify ?_) fun _ _ => .pure trivial
      rintro _ ⟨methodCache, rfl⟩
      exact ⟨_, rfl⟩

end Run

end Smalltalk

import Smalltalk.Proofs.Indexed.Remembered

namespace Smalltalk

/-! The primitives for elements remember a part when their message is the one that
has an instruction of its own and was looked up in the class of the receiver. What
they remember is then what the class says. -/

namespace Machine

/-- Whether a class is that of a value. -/
inductive IsClassOf (machine : Machine) : (species value : Value) → Prop
  | small (n : SmallInt) :
      IsClassOf machine machine.registers.specials.smallIntegerClass (.small n)
  | object {value : Value} {object : HeapObject} (found : machine.heap.get? value = some object) :
      IsClassOf machine object.species value

variable {base machine after : Machine} {species value : Value}

/-- Every class of a value is searched. -/
theorem IsClassOf.mem_searched (isClass : machine.IsClassOf species value) :
    species ∈ machine.searched := by
  cases isClass with
  | small n => simp [searched]
  | @object _ object found =>
    cases value with
    | small n => cases found
    | object slot =>
      rw [Heap.get?_object, Heap.cell?, Option.join_eq_some_iff] at found
      have listed : some object ∈ machine.heap.cells.toList :=
        Array.mem_toList_iff.mpr (Array.mem_of_getElem? found)
      have inside : object.species
          ∈ machine.heap.cells.toList.filterMap (·.map HeapObject.species) :=
        List.mem_filterMap.mpr ⟨some object, listed, rfl⟩
      simp [searched, inside]

theorem IsClassOf.species_eq (isClass : machine.IsClassOf species value) {object : HeapObject}
    (here : machine.heap.get? value = some object) : species = object.species := by
  cases isClass with
  | small n => cases here
  | object again => exact congrArg HeapObject.species (Option.some.inj (again.symm.trans here))

/-- A method was found for the message being sent, and it is the one that a search in an
undisturbed machine finds. -/
structure Poised (base machine : Machine) : Prop where
  remembers : base.Remembers machine
  undisturbed : base.Undisturbed machine
  confirms : ∀ access, base.Selects access machine.registers.messageSelector →
    base.heap.Confirms base.registers.specials.nil
      ⟨machine.registers.messageSelector, machine.registers.lookupClass,
        machine.registers.newMethod, machine.registers.primitiveIndex⟩

/-- What is remembered counts only while the selectors that ask for accesses are the
same. -/
structure Settled (base machine : Machine) : Prop where
  consistent : machine.heap.Consistent
  remembers : (∀ access, machine.selectorOf access = base.selectorOf access) →
    base.Remembers machine

/-- How a primitive leaves a machine. If it fails, the method of the message runs. -/
structure Concludes (base : Machine) (answered : Bool) (after : Machine) : Prop where
  settled : base.Settled after
  failed : answered = false → base.Remembers after

theorem Remembers.settled (remembers : base.Remembers machine) : base.Settled machine :=
  ⟨remembers.consistent, fun _ => remembers⟩

theorem Remembers.concludes (remembers : base.Remembers machine) (answered : Bool) :
    base.Concludes answered machine :=
  ⟨remembers.settled, fun _ => remembers⟩

end Machine

namespace AtCache

theorem mem_side_insert {cache : AtCache} {part stored : IndexedPart} {hash : Nat}
    {access other : Access} (member : some stored ∈ (cache.insert part hash access).side other) :
    some stored ∈ cache.side other ∨ stored = part ∧ other = access := by
  cases access <;> cases other <;> simp only [insert, side] at member ⊢
  · exact (Array.mem_or_eq_of_mem_setIfInBounds member).imp_right fun same =>
      ⟨Option.some.inj same, trivial⟩
  · exact .inl member
  · exact .inl member
  · exact (Array.mem_or_eq_of_mem_setIfInBounds member).imp_right fun same =>
      ⟨Option.some.inj same, trivial⟩

end AtCache

namespace Run

variable {α : Type} {base machine : Machine}

theorem Plain.remembers {run : Run α} (plain : Plain run) (remembers : base.Remembers machine) :
    run.Ensures machine fun _ => base.Remembers :=
  (plain.kept machine (.refl remembers.consistent)).mono fun _ _ ended =>
    remembers.of_keeps ended.1

theorem classOf_ensures (machine : Machine) (value : Value) :
    (classOf value).Ensures machine fun species after =>
      machine.IsClassOf species value ∧ after = machine := by
  cases value with
  | small n =>
    refine (ensures_getRegisters machine).bindExactly ?_
    exact .pure ⟨.small n, rfl⟩
  | object slot =>
    refine (ensures_readHeap machine _).bindTo fun object found => ?_
    exact .pure ⟨.object (Heap.object_eq_ok_iff.mp found), rfl⟩

theorem argument_ensures (machine : Machine) (count index : Nat) :
    (argument count index).Ensures machine fun _ after => after = machine := by
  unfold argument
  split
  · exact (ensures_operand machine _).mono fun _ _ ended => ended.2
  · exact .throw

end Run

namespace Reply

open Run

variable {base machine : Machine}

theorem indexedPart_ensures (machine : Machine) (object : Value) (chars : Bool) :
    (indexedPart object chars).Ensures machine fun part after =>
      (∀ found, part = some found → ∃ owner format, machine.heap.get? object = some owner ∧
        machine.heap.classFormat owner.species = .ok format ∧
        IndexedPart.ofBody? object format chars owner.body = some found) ∧ after = machine := by
  cases object with
  | small n => exact .pure ⟨by simp, rfl⟩
  | object slot =>
    refine (classOf_ensures machine _).bindTo fun species isClass => ?_
    cases isClass with
    | @object _ owner here =>
      refine (ensures_readHeap machine _).bindTo fun format described => ?_
      split
      · exact .pure ⟨by simp, rfl⟩
      · rename_i indexable
        refine (ensures_readHeap machine _).bindTo fun again found => ?_
        cases Option.some.inj (here.symm.trans (Heap.object_eq_ok_iff.mp found))
        have answer {part : Option IndexedPart}
            (same : part = IndexedPart.ofBody? (.object slot) format chars owner.body) :
            ∀ found, part = some found → ∃ owner format,
              machine.heap.get? (.object slot) = some owner ∧
                machine.heap.classFormat owner.species = .ok format ∧
                IndexedPart.ofBody? (.object slot) format chars owner.body = some found :=
          fun _ known => ⟨owner, format, here, described, same.symm.trans known⟩
        split
        · exact .pure ⟨answer (by simp_all [IndexedPart.ofBody?]), rfl⟩
        · exact .pure ⟨answer (by simp_all [IndexedPart.ofBody?]), rfl⟩
        · exact .pure ⟨answer (by simp_all [IndexedPart.ofBody?]), rfl⟩
        · exact .pure ⟨answer (by simp_all [IndexedPart.ofBody?]), rfl⟩
        · exact .pure ⟨answer (by simp_all [IndexedPart.ofBody?]), rfl⟩

/-- What makes a message cacheable. -/
theorem isCacheable_ensures (machine : Machine) (receiver : Value) (message : CommonMessage) :
    (isCacheable receiver message).Ensures machine fun cacheable after =>
      (cacheable = true →
        machine.heap.fetch machine.registers.specials.specialSelectors (message.index * 2)
          = .ok machine.registers.messageSelector ∧
        machine.IsClassOf machine.registers.lookupClass receiver) ∧ after = machine := by
  refine (ensures_getRegisters machine).bindExactly ?_
  refine (ensures_fetch machine _ _).bindTo fun selector fetched => ?_
  split
  · exact .pure ⟨by simp, rfl⟩
  · rename_i same
    refine (classOf_ensures machine _).bindTo fun species isClass => ?_
    split
    · exact .pure ⟨by simp, rfl⟩
    · rename_i own
      refine (ensures_get machine).bindExactly ?_
      refine .pure ⟨fun _ => ⟨?_, ?_⟩, rfl⟩
      · rw [fetched, not_not.mp same]
      · rw [not_not.mp own]
        exact isClass

/-- A part that the class of its object vouches for may be remembered. -/
theorem rememberPart_ensures (remembers : base.Remembers machine) {part : IndexedPart}
    {access : Access} (vouches : ∀ selector, base.Selects access selector →
      ∃ object, machine.heap.get? part.object = some object ∧
        base.Vouches access selector object part) :
    (rememberPart part access).Ensures machine fun _ => base.Remembers := by
  refine (ensures_modify machine _).mono ?_
  intro _ _ same
  rcases same with rfl
  refine ⟨remembers.consistent, remembers.methods, fun other stored member selector selects => ?_⟩
  rcases AtCache.mem_side_insert member with old | ⟨rfl, rfl⟩
  · exact remembers.parts other stored old selector selects
  · exact vouches selector selects

/-- The class of the receiver vouches for a part that its message found. -/
theorem vouches_of_found (poised : base.Poised machine) {access : Access} {chars : Bool}
    (number : Primitive.ofNumber? machine.registers.primitiveIndex
      = some (access.primitive chars)) {part : IndexedPart} {receiver : Value} {owner : HeapObject}
    {format : ClassFormat} (here : machine.heap.get? receiver = some owner)
    (described : machine.heap.classFormat owner.species = .ok format)
    (found : IndexedPart.ofBody? receiver format chars owner.body = some part)
    (own : machine.IsClassOf machine.registers.lookupClass receiver)
    (selects : base.Selects access machine.registers.messageSelector) :
    machine.heap.get? part.object = some owner ∧
      base.Vouches access machine.registers.messageSelector owner part := by
  rcases IndexedPart.of_ofBody? found with ⟨rfl, hasChars⟩
  have species := own.species_eq here
  have confirms := poised.confirms access selects
  rw [species] at confirms
  have proper := confirms.walks.proper
  have alike := poised.undisturbed.classes _ (Machine.IsClassOf.object here).mem_searched
  refine ⟨here, ⟨⟨format, ?_, hasChars ▸ found⟩, ⟨_, _, confirms, hasChars ▸ number⟩⟩⟩
  exact (alike.classFormat_eq proper).symm.trans described

theorem elementAt_remembers (poised : base.Poised machine) {chars : Bool} (count : Nat)
    (number : Primitive.ofNumber? machine.registers.primitiveIndex
      = some (Access.read.primitive chars)) :
    (elementAt chars count).Ensures machine fun _ => base.Remembers := by
  unfold elementAt
  split
  · exact .pure poised.remembers
  · refine (ensures_operand machine _).bindTo fun receiver _ => ?_
    refine (indexedPart_ensures machine receiver chars).bindTo fun part found => ?_
    cases part with
    | none => exact .pure poised.remembers
    | some part =>
      rcases found part rfl with ⟨owner, format, here, described, same⟩
      refine (argument_ensures machine count 0).bindChange fun index => ?_
      cases place? index part.size with
      | none => exact .pure poised.remembers
      | some place =>
        have answer : Plain (do succeed count (← readElement part place)) :=
          readElement_plain.bind fun _ => succeed_plain
        refine (isCacheable_ensures machine receiver .atIndex).bindTo fun cacheable known => ?_
        split
        · rename_i cached
          rcases known cached with ⟨asked, own⟩
          refine .bind (rememberPart_ensures poised.remembers fun selector selects => ?_)
            fun _ after remembers => answer.remembers remembers
          have fetched := (poised.undisturbed.selects selects).1.2
          cases Except.ok.inj (fetched.symm.trans asked)
          exact ⟨owner, vouches_of_found poised number here described same own selects⟩
        · exact answer.remembers poised.remembers

end Reply

/-! ## Setting elements -/

/-- How setting an element changes a heap: objects keep their classes and shapes, and
a field holds what it held or the new element. -/
structure Heap.Overwrites (value : Value) (before after : Heap) : Prop where
  persists : ∀ target object, before.get? target = some object →
    ∃ later, after.get? target = some later ∧ object.Persists later
  fetch : ∀ object index, after.fetch object index = before.fetch object index ∨
    after.fetch object index = .ok value

namespace Heap.Overwrites

variable {heap : Heap} {value : Value}

theorem refl (heap : Heap) : heap.Overwrites value heap :=
  ⟨fun _ object found => ⟨object, found, .refl object⟩, fun _ _ => .inl rfl⟩

theorem setField (heap : Heap) (object : Value) (index : Nat) :
    heap.Overwrites value (heap.setField object index value) where
  persists _ _ found := Heap.persists_updateBody object
    (fun owner _ => .mapPointers owner.body fun _ _ => Array.size_setIfInBounds) found
  fetch other place := by
    by_cases same : object = other ∧ index = place
    · rcases same with ⟨rfl, rfl⟩
      rw [Heap.fetch, pointers_setField_same, Heap.fetch]
      cases heap.pointers object with
      | error error => exact .inl rfl
      | ok fields =>
        simp only [Except.map, bind, Except.bind]
        by_cases inside : index < fields.size
        · exact .inr (by simp [inside])
        · exact .inl (by simp [inside])
    · exact .inl (fetch_setField_other (by tauto))

/-- Raw data holds no fields. -/
theorem updateBody (heap : Heap) (target : Value) {change : Body → Body}
    (shape : ∀ body : Body, body.SameShape (change body))
    (raw : ∀ body, (change body).pointers? = body.pointers?) :
    heap.Overwrites value (heap.updateBody target change) where
  persists _ _ found := Heap.persists_updateBody target (fun owner _ => shape owner.body) found
  fetch other place := by
    have pointers : (heap.updateBody target change).pointers other = heap.pointers other := by
      by_cases same : target = other
      · subst same
        have changed : (heap.updateBody target change).get? target = _ :=
          heap.get?_update_same target _
        rw [Heap.pointers, Heap.object, changed, Heap.pointers, Heap.object]
        cases heap.get? target with
        | none => rfl
        | some owner =>
          simp only [Option.map_some, bind, Except.bind, HeapObject.pointers?, raw]
      · have kept : (heap.updateBody target change).get? other = heap.get? other :=
          heap.get?_update_other same _
        rw [Heap.pointers, Heap.object, kept, Heap.pointers, Heap.object]
    exact .inl (by rw [Heap.fetch, pointers, Heap.fetch])

end Heap.Overwrites

namespace Reply

open Run Machine

variable {base before machine : Machine}

/-- How setting an element leaves a machine. -/
def Sets (value : Value) (machine after : Machine) : Prop :=
  after.registers = machine.registers ∧ machine.heap.Overwrites value after.heap

theorem setByte_ensures (machine : Machine) (object : Value) (slot : Nat) (byte : UInt8)
    (value : Value) :
    (setByte object slot byte).Ensures machine fun _ => Sets value machine := by
  have write : (modifyHeap (·.updateBody object (·.mapBytes (·.setIfInBounds slot byte)))).Ensures
      machine fun _ => Sets value machine := by
    refine (ensures_modifyHeap machine _).mono ?_
    intro _ _ same
    rcases same with rfl
    exact ⟨rfl, .updateBody _ _ (fun body => .mapBytes body fun _ _ => Array.size_setIfInBounds)
      (Body.pointers?_mapBytes _)⟩
  refine (ensures_readHeap machine _).bindTo fun owner _ => ?_
  cases owner.bytes? with
  | none => exact write
  | some bytes =>
    dsimp only
    split
    · exact .bind .throw fun _ _ absurd => absurd
    · exact write

theorem setWord_ensures (machine : Machine) (object : Value) (slot : Nat) (word : UInt32)
    (value : Value) :
    (setWord object slot word).Ensures machine fun _ => Sets value machine := by
  have write : (modifyHeap (·.updateBody object (·.mapWords (·.setIfInBounds slot word)))).Ensures
      machine fun _ => Sets value machine := by
    refine (ensures_modifyHeap machine _).mono ?_
    intro _ _ same
    rcases same with rfl
    exact ⟨rfl, .updateBody _ _ (fun body => .mapWords body fun _ _ => Array.size_setIfInBounds)
      (Body.pointers?_mapWords _)⟩
  refine (ensures_readHeap machine _).bindTo fun owner _ => ?_
  cases owner.words? with
  | none => exact write
  | some words =>
    dsimp only
    split
    · exact .bind .throw fun _ _ absurd => absurd
    · exact write

theorem wordOf_ensures (machine : Machine) (value : Value) :
    (wordOf value).Ensures machine fun _ after => after = machine := by
  cases value with
  | small n => exact .pure rfl
  | object slot =>
    refine (ensures_get machine).bindExactly ?_
    cases machine.heap.get? (.object slot) with
    | none => exact .pure rfl
    | some owner =>
      dsimp only
      split <;> exact .pure rfl

theorem characterCode_ensures (machine : Machine) (value : Value) :
    (characterCode value).Ensures machine fun _ after => after = machine := by
  unfold characterCode
  split
  · exact .pure rfl
  · refine (classOf_ensures machine value).bindTo fun species _ => ?_
    refine (ensures_getRegisters machine).bindExactly ?_
    split
    · exact .pure rfl
    · exact (ensures_fetch machine _ _).bindTo fun _ _ => .pure rfl

/-- What is refused changes nothing. -/
theorem writeElement_ensures (machine : Machine) (part : IndexedPart) (place : Nat)
    (value : Value) :
    (writeElement part place value).Ensures machine fun accepted after =>
      Sets value machine after ∧ (accepted = false → after = machine) := by
  have refused : Sets value machine machine ∧ (false = false → machine = machine) :=
    ⟨⟨rfl, .refl _⟩, fun _ => rfl⟩
  have accepted {after : Machine} (sets : Sets value machine after) :
      Sets value machine after ∧ (true = false → after = machine) := ⟨sets, by simp⟩
  have writeByte (code : Int) : (do
      if code < 0 ∨ 255 < code then return false
      setByte part.object (part.fixed + place) (UInt8.ofNat code.toNat)
      return true : Run Bool).Ensures machine fun accepted after =>
        Sets value machine after ∧ (accepted = false → after = machine) := by
    split
    · exact .pure refused
    · exact .bind (setByte_ensures machine _ _ _ value) fun _ _ sets => .pure (accepted sets)
  unfold writeElement
  cases part.kind with
  | pointers =>
    refine .bind (ensures_store machine _ _ value) fun _ after stored => ?_
    rcases stored with ⟨-, rfl⟩
    exact .pure (accepted ⟨rfl, .setField _ _ _⟩)
  | words =>
    refine (wordOf_ensures machine value).bindChange fun word => ?_
    cases word with
    | none => exact .pure refused
    | some word =>
      exact .bind (setWord_ensures machine _ _ _ value) fun _ _ sets => .pure (accepted sets)
  | bytes =>
    dsimp only
    cases value.int? with
    | none => exact .pure refused
    | some code => exact writeByte code
  | chars =>
    refine (characterCode_ensures machine value).bindChange fun code => ?_
    cases code with
    | none => exact .pure refused
    | some code => exact writeByte code

theorem succeed_ensures (machine : Machine) (count : Nat) (value : Value) :
    (succeed count value).Ensures machine fun answered after =>
      answered = true ∧ after.registers.specials = machine.registers.specials ∧
        machine.heap.Overwrites value after.heap := by
  refine .bind (ensures_replace machine _ value) fun _ after ended => ?_
  rcases ended with ⟨-, rfl⟩
  exact .pure ⟨rfl, rfl, .setField _ _ _⟩

/-- The selector that asks to set elements has been overwritten by the element, which is
then written once more. -/
theorem succeed_concludes (consistent : machine.heap.Consistent)
    (undisturbed : base.Undisturbed before)
    {access : Access} (count : Nat) {value : Value}
    (fetched : machine.heap.fetch machine.registers.specials.specialSelectors
      (access.message.index * 2) = .ok value)
    (new : before.heap.fetch before.registers.specials.specialSelectors
      (access.message.index * 2) ≠ .ok value) :
    (succeed count value).Ensures machine base.Concludes := by
  refine ((succeed_ensures machine count value).and
    (succeed_plain.kept machine (.refl consistent))).mono fun answered after ended => ?_
  rcases ended with ⟨⟨rfl, same, overwrites⟩, keeps, -⟩
  refine ⟨⟨keeps.consistent, fun selectors => absurd ?_ new⟩, by simp⟩
  have there : after.heap.fetch after.registers.specials.specialSelectors
      (access.message.index * 2) = .ok value := by
    rw [same]
    exact (overwrites.fetch _ _).elim (·.trans fetched) id
  have known := selectorOf_eq_ok_iff.mpr ⟨there, rfl⟩
  rw [selectors, ← undisturbed.selectors] at known
  exact (selectorOf_eq_ok_iff.mp known).1

/-- A part is remembered after its element was set. If that has made the message of
another selector the one that sets elements, it remains so. -/
theorem setElementAt_concludes (poised : base.Poised machine) {chars : Bool} (count : Nat)
    (number : Primitive.ofNumber? machine.registers.primitiveIndex
      = some (Access.write.primitive chars)) :
    (setElementAt chars count).Ensures machine base.Concludes := by
  have failed := poised.remembers.concludes false
  unfold setElementAt
  split
  · exact .pure failed
  · refine (ensures_operand machine _).bindTo fun receiver _ => ?_
    refine (indexedPart_ensures machine receiver chars).bindTo fun part found => ?_
    cases part with
    | none => exact .pure failed
    | some part =>
      rcases found part rfl with ⟨owner, format, here, described, same⟩
      refine (argument_ensures machine count 0).bindChange fun index => ?_
      cases place? index part.size with
      | none => exact .pure failed
      | some place =>
        refine (argument_ensures machine count 1).bindChange fun value => ?_
        refine ((writeElement_ensures machine part place value).and
          (writeElement_plain.remembers poised.remembers)).bind fun written set outcome => ?_
        rcases outcome with ⟨⟨⟨registers, overwrites⟩, -⟩, remembers⟩
        split
        · exact .pure (remembers.concludes false)
        · refine (isCacheable_ensures set receiver .atIndexPut).bindTo fun cacheable known => ?_
          split
          · rename_i cached
            rcases known cached with ⟨asked, own⟩
            rcases overwrites.persists receiver owner here with ⟨later, there, persists⟩
            have species : machine.registers.lookupClass = owner.species := by
              rw [← registers, own.species_eq there, persists.species]
            have own : machine.IsClassOf machine.registers.lookupClass receiver :=
              species ▸ .object here
            rw [registers] at asked
            by_cases old : machine.heap.fetch machine.registers.specials.specialSelectors
                (Access.write.message.index * 2) = .ok machine.registers.messageSelector
            · refine .bind (rememberPart_ensures remembers fun selector selects => ?_)
                fun _ after remembers => ?_
              · have fetched := (poised.undisturbed.selects selects).1.2
                cases Except.ok.inj (fetched.symm.trans old)
                rcases vouches_of_found poised number here described same own selects with
                  ⟨inside, vouches⟩
                rw [(IndexedPart.of_ofBody? same).1]
                exact ⟨later, there, vouches.persists persists⟩
              · exact (succeed_plain.remembers remembers).mono fun _ _ ended => ended.concludes _
            · have overwritten :=
                (overwrites.fetch _ _).resolve_left fun kept => old (kept.symm.trans asked)
              have message := Except.ok.inj (overwritten.symm.trans asked)
              rw [← message] at old asked
              refine (ensures_modify set _).bindChange fun _ => ?_
              refine succeed_concludes ?_ poised.undisturbed count ?_ old
              · exact remembers.consistent
              · rw [← registers] at asked
                exact asked
          · exact (succeed_plain.remembers remembers).mono fun _ _ ended => ended.concludes _

end Reply

end Smalltalk

import Smalltalk.Proofs.Indexed.Access

namespace Smalltalk

/-! A message leaves a machine remembering only what would be found in another one, if
every search for a method finds that one undisturbed. -/

namespace Run

variable {base start machine : Machine} {species : Value}

/-- Find the method for the message being sent, and stop if what searches and accesses
read is no longer as it was. -/
def resolveUndisturbed (base : Machine) : Resolver := fun species => do
  if base.Undisturbed (← get) then resolveMessage species else throw .undefinedOperand

theorem resolveUndisturbed_ensures (remembers : base.Remembers machine)
    (same : machine.registers.lookupClass = species) :
    (resolveUndisturbed base species).Ensures machine fun found after =>
      base.Remembers after ∧ after.registers.lookupClass = species ∧
        (found = true → base.Poised after) := by
  refine (ensures_get machine).bindExactly ?_
  split
  · rename_i undisturbed
    have alike := undisturbed.classes species (by simp [Machine.searched, same])
    refine (ensures_getRegisters machine).bindExactly ?_
    refine .bind (lookupMethod_ensures remembers undisturbed alike) fun found after looked => ?_
    rcases looked.same with ⟨cache, rfl⟩
    cases found with
    | none => exact .pure ⟨looked.remembers, same, by simp⟩
    | some entry =>
      refine .bind (ensures_modifyRegisters _ _) fun _ after changed => ?_
      have remembers : base.Remembers after := looked.remembers.of_keeps <| by
        rw [changed]
        exact .of_same looked.remembers.consistent rfl rfl rfl rfl rfl
      rw [changed] at remembers ⊢
      refine .pure ⟨remembers, same, fun _ => ⟨remembers, ?_, ?_⟩⟩
      · refine undisturbed.of_subset rfl rfl fun other member => ?_
        rcases looked.searched other member with before | rfl
        · exact before
        · simp [Machine.searched, same]
      · intro access selects
        have confirms := looked.confirms entry rfl access selects
        rw [← same] at confirms
        exact confirms
  · exact .throw

/-! ## Messages that are not understood

The class in which a search starts is needed again after the message was packed. -/

/-- The heap is sound, and a search starts in a class. -/
abbrev SearchesIn (species : Value) (machine : Machine) : Prop :=
  machine.heap.Consistent ∧ machine.registers.lookupClass = species

theorem register_searchesIn (object : HeapObject) :
    Maintains (SearchesIn species) (register object) fun _ => True := by
  intro machine same
  refine (ensures_onHeap machine _).mono ?_
  intro _ _ ended
  rcases ended with ⟨rooted, registered, rfl⟩
  obtain ⟨heap, slot, hash, -, survives, -, places⟩ := HeapM.register_cases same.1 registered
  exact ⟨⟨places.consistent,
    (Registers.lookupClass_of_flushed survives.flushed).trans same.2⟩, trivial⟩

theorem store_searchesIn (object : Value) (index : Nat) (value : Value) :
    Maintains (SearchesIn species) (store object index value) fun _ => True := by
  intro machine same
  refine (ensures_store machine object index value).mono ?_
  intro _ _ ended
  rcases ended with ⟨-, rfl⟩
  exact ⟨⟨Heap.consistent_update same.1 _ _, same.2⟩, trivial⟩

theorem packMessage_searchesIn (lookupClass : Value) :
    Maintains (SearchesIn species) (packMessage lookupClass) fun _ => True :=
  packMessage_maintains register_searchesIn store_searchesIn (fun _ _ _ same => same) lookupClass

/-- When there is a method for a message, it is the one that a search finds. -/
theorem findMethodBy_poised (remembers : base.Remembers machine)
    (same : machine.registers.lookupClass = species) :
    (findMethodBy (resolveUndisturbed base) species).Ensures machine fun _ => base.Poised := by
  refine (resolveUndisturbed_ensures remembers same).bind fun found first resolved => ?_
  rcases resolved with ⟨remembers, same, poised⟩
  split
  · rename_i there
    exact .pure (poised there)
  · refine (ensures_getRegisters first).bindExactly ?_
    refine (ensures_specialObject first _).bindTo fun doesNotUnderstand _ => ?_
    have again : (do
        packMessage species
        modifyRegisters fun registers => { registers with messageSelector := doesNotUnderstand }
        unless ← resolveUndisturbed base species do
          failUnderstanding doesNotUnderstand : Run Unit).Ensures first fun _ => base.Poised := by
      refine ((packMessage_plain.remembers remembers).and
        (packMessage_searchesIn species first ⟨remembers.consistent, same⟩)).bind
        fun _ second packed => ?_
      rcases packed with ⟨remembers, ⟨-, same⟩, -⟩
      have start : Plain (modifyRegisters fun registers =>
          { registers with messageSelector := doesNotUnderstand }) :=
        modifyRegisters_plain fun _ _ _ => rfl
      refine ((start.remembers remembers).and (ensures_modifyRegisters second _)).bind
        fun _ third begun => ?_
      rcases begun with ⟨remembers, rfl⟩
      refine (resolveUndisturbed_ensures remembers same).bind fun found last resolved => ?_
      rcases resolved with ⟨-, -, poised⟩
      split
      · rename_i there
        exact .pure (poised there)
      · exact (failUnderstanding_ensures last _).mono fun _ _ absurd => absurd.elim
    split
    · exact .bind (failUnderstanding_ensures first _) fun _ _ absurd => absurd.elim
    · exact again

/-! ## What settles -/

/-- The computation leaves a machine remembering only what would be found in another
one, while the selectors that ask for accesses are the same. -/
def Settling {α : Type} (base : Machine) (run : Run α) : Prop :=
  ∀ machine, base.Remembers machine → run.Ensures machine fun _ => base.Settled

namespace Settling

variable {α β : Type}

theorem of_plain {run : Run α} (plain : Plain run) : Settling base run :=
  fun _ remembers => (plain.remembers remembers).mono fun _ _ remembers => remembers.settled

end Settling

end Run

namespace Reply

open Run Machine

variable {base machine : Machine} {species : Value}

/-- Every message settles. -/
def Settles (base : Machine) (send : Sender) : Prop :=
  ∀ selector count species, Settling base (send selector count species)

theorem mismatches_ensures (remembers : base.Remembers machine)
    (undisturbed : base.Undisturbed machine)
    (alike : Heap.DispatchesAlike base.registers.specials.nil base.heap machine.heap species)
    (selector : Value) (count : Nat) :
    (mismatches selector species count).Ensures machine fun _ => base.Remembers := by
  refine .bind (lookupMethod_ensures remembers undisturbed alike) fun found after looked => ?_
  cases found with
  | none => exact .pure looked.remembers
  | some entry =>
    refine (ensures_readHeap after _).bindTo fun header _ => ?_
    cases header <;> exact .pure looked.remembers

theorem perform_concludes {send : Sender} (settles : Settles base send)
    (poised : base.Poised machine) (count : Nat) :
    (perform send count).Ensures machine base.Concludes := by
  have failed := poised.remembers.concludes false
  unfold perform
  split
  · exact .pure failed
  · refine (argument_ensures machine count 0).bindChange fun selector => ?_
    split
    · exact .pure failed
    · refine (ensures_operand machine _).bindTo fun receiver _ => ?_
      refine (classOf_ensures machine receiver).bindTo fun species isClass => ?_
      have alike := poised.undisturbed.classes species isClass.mem_searched
      refine (mismatches_ensures poised.remembers poised.undisturbed alike selector _).bind
        fun mismatched after remembers => ?_
      split
      · exact .pure (remembers.concludes false)
      · refine (ensures_getRegisters after).bindExactly ?_
        refine (shiftDown_plain.remembers remembers).bind fun _ shifted remembers => ?_
        refine (drop_plain.remembers remembers).bind fun _ dropped remembers => ?_
        refine (settles selector _ species dropped remembers).bind fun _ last settled => ?_
        exact .pure ⟨settled, by simp⟩

theorem performWithArray_concludes {send : Sender} (settles : Settles base send)
    (poised : base.Poised machine)
    (alike : Heap.DispatchesAlike base.registers.specials.nil base.heap machine.heap species)
    (count : Nat) (selector array : Value) :
    (performWithArray send count selector array species).Ensures machine base.Concludes := by
  have failed := poised.remembers.concludes false
  unfold performWithArray
  split
  · exact .pure failed
  · refine (ensures_getRegisters machine).bindExactly ?_
    refine (classOf_ensures machine array).bindTo fun arrayClass _ => ?_
    split
    · exact .pure failed
    · refine (ensures_readHeap machine _).bindTo fun arguments _ => ?_
      refine (ensures_getHeap machine).bindExactly ?_
      dsimp only
      split
      · exact .pure failed
      · refine (mismatches_ensures poised.remembers poised.undisturbed alike selector _).bind
          fun mismatched after remembers => ?_
        split
        · exact .pure (remembers.concludes false)
        · refine (drop_plain.remembers remembers).bind fun _ dropped remembers => ?_
          refine ((forM_plain fun _ => push_plain).remembers remembers).bind
            fun _ pushed remembers => ?_
          refine (settles selector _ species pushed remembers).bind fun _ last settled => ?_
          exact .pure ⟨settled, by simp⟩

/-- What a class is found to inherit from lies above it. -/
theorem inheritsFrom_ensures (machine : Machine) (ancestor : Value) (budget : Nat)
    (species : Value) :
    (inheritsFrom ancestor budget species).Ensures machine fun inherits after =>
      (inherits = true → ∃ levels,
        machine.heap.climb machine.registers.specials.nil levels species = some ancestor) ∧
      after = machine := by
  have here {species : Value} (proper : species ≠ machine.registers.specials.nil)
      (same : species = ancestor) :
      ∃ levels, machine.heap.climb machine.registers.specials.nil levels species
        = some ancestor := ⟨0, by simp [Heap.climb, proper, ← same]⟩
  induction budget generalizing species with
  | zero =>
    refine (ensures_getNil machine).bindExactly ?_
    split
    · exact .pure ⟨by simp, rfl⟩
    · split
      · exact .pure ⟨fun _ => here ‹_› ‹_›, rfl⟩
      · exact .throw
  | succ budget induction =>
    refine (ensures_getNil machine).bindExactly ?_
    split
    · exact .pure ⟨by simp, rfl⟩
    · rename_i proper
      split
      · exact .pure ⟨fun _ => here ‹_› ‹_›, rfl⟩
      · refine (ensures_fetch machine species _).bindTo fun above fetched => ?_
        have higher {levels : Nat}
            (reached : machine.heap.climb machine.registers.specials.nil levels above
              = some ancestor) :
            machine.heap.climb machine.registers.specials.nil (levels + 1) species
              = some ancestor := by
          have different : above ≠ machine.registers.specials.nil := by
            intro ended
            rw [ended, Heap.climb_nil] at reached
            cases reached
          rw [Heap.climb_succ proper, Heap.properSuperclass?_eq_some_iff.mpr ⟨fetched, different⟩]
          exact reached
        refine (induction above).mono fun inherits after ended => ⟨fun inherited => ?_, ended.2⟩
        rcases ended.1 inherited with ⟨levels, reached⟩
        exact ⟨levels + 1, higher reached⟩

theorem performWithArguments_concludes {send : Sender} (settles : Settles base send)
    (poised : base.Poised machine) (count : Nat) :
    (performWithArguments send count).Ensures machine base.Concludes := by
  unfold performWithArguments
  split
  · exact .pure (poised.remembers.concludes false)
  · refine (argument_ensures machine count 0).bindChange fun selector => ?_
    refine (argument_ensures machine count 1).bindChange fun array => ?_
    refine (ensures_operand machine _).bindTo fun receiver _ => ?_
    refine (classOf_ensures machine receiver).bindTo fun species isClass => ?_
    have alike := poised.undisturbed.classes species isClass.mem_searched
    exact performWithArray_concludes settles poised alike count selector array

/-- The search starts above a class that is searched. -/
theorem performInSuperclass_concludes {send : Sender} (settles : Settles base send)
    (poised : base.Poised machine) (count : Nat) :
    (performInSuperclass send count).Ensures machine base.Concludes := by
  have failed := poised.remembers.concludes false
  unfold performInSuperclass
  split
  · exact .pure failed
  · refine (argument_ensures machine count 0).bindChange fun selector => ?_
    refine (argument_ensures machine count 1).bindChange fun array => ?_
    refine (argument_ensures machine count 2).bindChange fun lookup => ?_
    refine (ensures_operand machine _).bindTo fun receiver _ => ?_
    refine (classOf_ensures machine receiver).bindTo fun species isClass => ?_
    split
    · exact .pure failed
    · refine (ensures_getHeap machine).bindExactly ?_
      refine (inheritsFrom_ensures machine lookup _ species).bindTo fun inherits above => ?_
      split
      · exact .pure failed
      · rename_i inherited
        rcases above (by simpa using inherited) with ⟨levels, reached⟩
        have below := poised.undisturbed.classes species isClass.mem_searched
        rw [poised.undisturbed.specials] at reached
        have alike := (below.symm.of_above reached).symm
        exact performWithArray_concludes settles poised alike count selector array

/-! ## Primitives by number -/

theorem primitive_concludes {send : Sender} (settles : Settles base send)
    (poised : base.Poised machine) {primitive : Primitive}
    (number : Primitive.ofNumber? machine.registers.primitiveIndex = some primitive) (count : Nat) :
    (primitive.run send count).Ensures machine base.Concludes := by
  rcases primitive.plain_or_special send count with plain | special
  · exact (plain.remembers poised.remembers).mono fun _ _ remembers => remembers.concludes _
  cases special with
  | elementAt chars =>
    exact (elementAt_remembers poised count number).mono fun _ _ remembers => remembers.concludes _
  | setElementAt chars => exact setElementAt_concludes poised count number
  | perform => exact perform_concludes settles poised count
  | performWithArguments => exact performWithArguments_concludes settles poised count
  | performInSuperclass => exact performInSuperclass_concludes settles poised count

end Reply

namespace Run

variable {base : Machine}

theorem respond_concludes {send : Reply.Sender} (settles : Reply.Settles base send)
    {machine : Machine} (poised : base.Poised machine) :
    (respond send machine.registers.primitiveIndex).Ensures machine base.Concludes := by
  unfold respond
  split
  · exact (quickPrimitive_plain.remembers poised.remembers).mono fun _ _ remembers =>
      remembers.concludes _
  · split
    · exact .pure (poised.remembers.concludes false)
    · rename_i primitive number
      refine (ensures_getRegisters machine).bindExactly ?_
      refine (Reply.primitive_concludes settles poised number _).bind
        fun succeeded after ended => ?_
      cases succeeded with
      | true => exact .pure ended
      | false =>
        have restored : Plain (modifyRegisters fun registers =>
            { registers with sp := machine.registers.sp }) := modifyRegisters_plain fun _ _ _ => rfl
        refine (restored.remembers (ended.failed rfl)).bind fun _ last remembers => ?_
        exact .pure (remembers.concludes false)

/-! ## Messages -/

theorem sendToClassBy_settles (depth : Nat) :
    Reply.Settles base (sendToClassBy (resolveUndisturbed base) depth) := by
  induction depth with
  | zero => exact fun _ _ _ _ _ => .throw
  | succ depth induction =>
    intro selector count species machine remembers
    have begun : Plain (modifyRegisters fun registers => { registers with
        messageSelector := selector
        argumentCount := count
        lookupClass := species }) := modifyRegisters_plain fun _ _ _ => rfl
    refine ((begun.remembers remembers).and (ensures_modifyRegisters machine _)).bind
      fun _ started same => ?_
    rcases same with ⟨remembers, rfl⟩
    refine (findMethodBy_poised remembers rfl).bind fun _ found poised => ?_
    refine (ensures_getRegisters found).bindExactly ?_
    have activated {after : Machine} (remembers : base.Remembers after) :
        activateMethod.Ensures after fun _ => base.Settled :=
      Settling.of_plain activateMethod_plain after remembers
    dsimp only
    split
    · refine (respond_concludes induction poised).bind fun answered after ended => ?_
      cases answered with
      | true => exact .pure ended.settled
      | false => exact activated (ended.failed rfl)
    · have none : (pure false : Run Bool).Ensures found fun answered after =>
          answered = false ∧ after = found := .pure ⟨rfl, rfl⟩
      exact none.bindExactly (activated poised.remembers)

end Run

end Smalltalk

import Smalltalk.Proofs.Frame.Saved
import Smalltalk.Proofs.Machine.Step

namespace Smalltalk

/-! A return frees contexts from the active one up to its target, none of them
twice: following the senders from a context that comes again would never end. -/

namespace Heap

/-- The contexts from one up to, and without, the target of a return, along their
senders. -/
inductive Ascends (heap : Heap) (target : Value) : Value → List Value → Prop
  | arrived : Ascends heap target target []
  | sent {context sender : Value} {above : List Value} (away : context ≠ target)
      (found : heap.fetch context ContextField.sender = .ok sender)
      (ascends : Ascends heap target sender above) :
      Ascends heap target context (context :: above)

namespace Ascends

variable {heap : Heap} {target context : Value} {left other : List Value}

theorem unique (ascends : heap.Ascends target context left)
    (again : heap.Ascends target context other) : left = other := by
  induction ascends generalizing other with
  | arrived =>
    cases again with
    | arrived => rfl
    | sent away _ _ => exact absurd rfl away
  | sent away found _ induction =>
    cases again with
    | arrived => exact absurd rfl away
    | sent _ foundAgain rest =>
      rw [found] at foundAgain
      cases foundAgain
      rw [induction rest]

theorem of_mem (ascends : heap.Ascends target context left) {middle : Value}
    (member : middle ∈ left) :
    ∃ rest, heap.Ascends target middle rest ∧ rest.length ≤ left.length := by
  induction ascends with
  | arrived => cases member
  | @sent context sender above away found ascends induction =>
    rcases List.mem_cons.mp member with rfl | inside
    · exact ⟨_, .sent away found ascends, le_refl _⟩
    · rcases induction inside with ⟨rest, shorter, bound⟩
      exact ⟨rest, shorter, bound.trans (Nat.le_succ _)⟩

theorem nodup (ascends : heap.Ascends target context left) : left.Nodup := by
  induction ascends with
  | arrived => exact List.nodup_nil
  | @sent context sender above away found ascends induction =>
    refine List.nodup_cons.mpr ⟨fun member => ?_, induction⟩
    rcases ascends.of_mem member with ⟨rest, again, bound⟩
    have same : rest = context :: above := again.unique (.sent away found ascends)
    rw [same, List.length_cons] at bound
    omega

/-- The target of a return is none of the contexts that are left. -/
theorem target_not_mem (ascends : heap.Ascends target context left) : target ∉ left := by
  intro member
  induction ascends with
  | arrived => cases member
  | sent away _ _ induction =>
    rcases List.mem_cons.mp member with rfl | inside
    · exact away rfl
    · exact induction inside

/-- What is left by a return is an object. -/
theorem isObject (ascends : heap.Ascends target context left) {middle : Value}
    (member : middle ∈ left) : ∃ slot, middle = .object slot := by
  induction ascends with
  | arrived => cases member
  | @sent context sender above _ found _ induction =>
    rcases List.mem_cons.mp member with rfl | inside
    · rcases Heap.mem_references_of_fetch found with ⟨_, here, _⟩
      cases middle with
      | small n => cases here
      | object slot => exact ⟨slot, rfl⟩
    · exact induction inside

end Ascends

end Heap

namespace Machine

/-- Only the heap, the lists of free contexts and the count of contexts to be freed may
have changed. -/
def RecyclingApart (machine after : Machine) : Prop :=
  after = { machine with
    heap := after.heap
    registers := { machine.registers with
      freeContexts := after.registers.freeContexts
      freeLargeContexts := after.registers.freeLargeContexts
      reclaimable := after.registers.reclaimable } }

theorem RecyclingApart.trans {machine middle after : Machine}
    (first : machine.RecyclingApart middle) (second : middle.RecyclingApart after) :
    machine.RecyclingApart after := by
  rw [RecyclingApart, second, first]

/-- How a machine comes out of retiring a context: nobody can return to it any more, and it may
have become free. -/
structure Retired (machine : Machine) (context : Value) (after : Machine) : Prop where
  heap : after.heap = (machine.heap.setField context ContextField.sender
    machine.registers.specials.nil).setField context ContextField.pc machine.registers.specials.nil
  sender : after.heap.fetch context ContextField.sender = .ok machine.registers.specials.nil
  pc : after.heap.fetch context ContextField.pc = .ok machine.registers.specials.nil
  apart : machine.RecyclingApart after
  free : after.registers.free.Perm machine.registers.free ∨
    after.registers.free.Perm (context :: machine.registers.free)

/-- The way of a return that comes to its end: the contexts from the active one up to the
target are retired, the target is loaded, and the answer is pushed. -/
structure ReturnsBy (machine : Machine) (answer target : Value) (above : List Value)
    (retired loaded after : Machine) : Prop where
  proper : target ≠ machine.registers.specials.nil
  resumable : ∃ pc, machine.heap.fetch target ContextField.pc = .ok pc ∧
    pc ≠ machine.registers.specials.nil
  chain : machine.heap.Ascends target machine.registers.activeContext above
  inside : machine.registers.specials.nil ∉ above
  retires : above.forM Run.retire machine = .ok () retired
  loads : Run.loadContext target retired = .ok () loaded
  pushes : Run.push answer loaded = .ok () after

end Machine

namespace Run

open Machine

variable {scope : Scope}

/-- The computation leaves the lists of free contexts as they are. -/
abbrev KeepsFree {α : Type} (run : Run α) : Prop :=
  ∀ free, Maintains (fun machine => machine.registers.free = free) run fun _ => True

theorem loadContext_keepsFree (context : Value) : KeepsFree (loadContext context) :=
  fun _ _ same => (loadContext_loads context).mono <| by
    rintro _ _ ⟨_, _, _, _, _, _, -, -, -, -, -, -, rfl⟩
    exact ⟨same, trivial⟩

theorem push_keepsFree (value : Value) : KeepsFree (push value) :=
  fun _ machine same => (ensures_push machine value).mono <| by
    intro _ _ ended
    rcases ended with ⟨-, rfl⟩
    exact ⟨same, trivial⟩

theorem pop_keepsFree : KeepsFree pop := by
  intro free machine same
  refine (ensures_operand machine 0).bindTo fun value _ => ?_
  refine (ensures_getRegisters machine).bindExactly ?_
  split
  · intro _ _ ended
    cases ended
  · refine (ensures_drop machine 1).bindChange fun _ => ?_
    exact .pure ⟨same, trivial⟩

/-! ## Retiring contexts -/

/-- Following the senders stops at nil. -/
theorem contextsAbove_ascends_inside (machine : Machine) (target : Value) (budget : Nat)
    (context : Value) :
    (contextsAbove target budget context).Ensures machine fun left after =>
      (machine.heap.Ascends target context left ∧ machine.registers.specials.nil ∉ left) ∧
        after = machine := by
  induction budget generalizing context with
  | zero =>
    unfold contextsAbove
    split
    · rename_i arrived
      exact arrived ▸ .pure ⟨⟨.arrived, List.not_mem_nil⟩, rfl⟩
    · refine (ensures_getNil machine).bindTo fun _ _ => ?_
      dsimp only
      split
      · intro _ _ ended
        cases ended
      · exact .throw
  | succ budget induction =>
    unfold contextsAbove
    split
    · rename_i arrived
      exact arrived ▸ .pure ⟨⟨.arrived, List.not_mem_nil⟩, rfl⟩
    · rename_i away
      refine (ensures_getNil machine).bindExactly ?_
      dsimp only
      split
      · intro _ _ ended
        cases ended
      · rename_i proper
        refine (ensures_fetch machine _ _).bindTo fun sender found => ?_
        refine (induction sender).bindTo fun above ascends => ?_
        refine .pure ⟨⟨.sent away found ascends.1, ?_⟩, rfl⟩
        rw [List.mem_cons, not_or]
        exact ⟨fun same => proper same.symm, ascends.2⟩

theorem contextsAbove_ascends (machine : Machine) (target : Value) (budget : Nat)
    (context : Value) :
    (contextsAbove target budget context).Ensures machine fun left after =>
      machine.heap.Ascends target context left ∧ after = machine :=
  (contextsAbove_ascends_inside machine target budget context).mono fun _ _ ended =>
    ⟨ended.1.1, ended.2⟩

/-- A context is put on one of the lists of free contexts at most. -/
theorem recycle_ensures (machine : Machine) (context : Value) :
    (recycle context).Ensures machine fun _ after =>
      after.heap = machine.heap ∧ machine.RecyclingApart after ∧
        (after.registers.free.Perm machine.registers.free ∨
          after.registers.free.Perm (context :: machine.registers.free)) := by
  have kept : (pure () : Run Unit).Ensures machine fun _ after =>
      after.heap = machine.heap ∧ machine.RecyclingApart after ∧
        (after.registers.free.Perm machine.registers.free ∨
          after.registers.free.Perm (context :: machine.registers.free)) :=
    .pure ⟨rfl, rfl, .inl (.refl _)⟩
  refine (ensures_get machine).bindExactly ?_
  split
  · exact kept
  · split
    · exact kept
    · dsimp only
      split
      · refine (ensures_modifyRegisters machine _).mono ?_
        rintro _ _ rfl
        exact ⟨rfl, rfl, .inr (.refl _)⟩
      · split
        · refine (ensures_modifyRegisters machine _).mono ?_
          rintro _ _ rfl
          exact ⟨rfl, rfl, .inr List.perm_middle⟩
        · exact kept

theorem retire_retired (machine : Machine) (context : Value) :
    (retire context).Ensures machine fun _ after => machine.Retired context after := by
  refine (ensures_getNil machine).bindExactly ?_
  have read : (Functor.discard (fetch context ContextField.sender)).Ensures machine
      fun _ after => after = machine :=
    .discard ((ensures_fetch machine _ _).mono fun _ _ ended => ended.2)
  refine read.bindChange fun _ => ?_
  refine (ensures_store machine _ _ _).bindTo fun _ wiped => ?_
  refine (ensures_store _ _ _ _).bindTo fun _ pc => ?_
  have sender : ((machine.heap.setField context ContextField.sender
      machine.registers.specials.nil).setField context ContextField.pc
        machine.registers.specials.nil).fetch context ContextField.sender
      = .ok machine.registers.specials.nil :=
    (Heap.fetch_setField_other (.inr (by decide))).trans wiped
  refine (ensures_getRegisters _).bindExactly ?_
  split
  · refine (ensures_modifyRegisters _ _).bindChange fun _ => ?_
    refine (recycle_ensures _ context).mono ?_
    rintro _ after ⟨same, apart, free⟩
    refine ⟨same, same ▸ sender, same ▸ pc, ?_, free⟩
    rw [RecyclingApart, apart]
  · exact .pure ⟨rfl, sender, pc, rfl, .inl (.refl _)⟩

theorem forM_retire_ensures (machine : Machine) (left : List Value) :
    (left.forM retire).Ensures machine fun _ after =>
      ∃ freed : List Value, freed.Sublist left ∧
        after.registers.free.Perm (freed ++ machine.registers.free) := by
  induction left generalizing machine with
  | nil => exact .pure ⟨[], .refl _, .refl _⟩
  | cons context left induction =>
    refine (retire_retired machine context).bind fun _ middle retired => ?_
    refine (induction middle).mono fun _ after ⟨freed, sublist, ended⟩ => ?_
    rcases retired.free with same | one
    · exact ⟨freed, sublist.cons context, ended.trans (same.append_left freed)⟩
    · refine ⟨context :: freed, sublist.cons_cons context, ended.trans ?_⟩
      exact (one.append_left freed).trans List.perm_middle

/-! ## Returning -/

theorem returnTo_returnsBy (machine : Machine) (answer target : Value) :
    (returnTo answer target).Ensures machine fun _ after =>
      ∃ above retired loaded, machine.ReturnsBy answer target above retired loaded after := by
  refine (ensures_getNil machine).bindExactly ?_
  split
  · intro _ _ ended
    cases ended
  rename_i proper
  refine (ensures_fetch machine _ _).bindTo fun saved found => ?_
  dsimp only
  split
  · intro _ _ ended
    cases ended
  rename_i resumable
  refine (ensures_getHeap machine).bindExactly ?_
  refine (ensures_getRegisters machine).bindExactly ?_
  refine (contextsAbove_ascends_inside _ target _ _).bindTo fun above ⟨chain, inside⟩ => ?_
  have retires : (above.forM retire).Ensures machine fun _ retired =>
      above.forM retire machine = .ok () retired := fun _ _ ended => ended
  refine retires.bind fun _ retired retires => ?_
  have loads : (loadContext target).Ensures retired fun _ loaded =>
      loadContext target retired = .ok () loaded := fun _ _ ended => ended
  refine loads.bind fun _ loaded loads _ after pushes => ⟨above, retired, loaded, ?_⟩
  exact ⟨proper, ⟨saved, found, resumable⟩, chain, inside, retires, loads, pushes⟩

/-- Contexts that are concealed stay apart from those that a return frees. -/
theorem returnTo_ensures {machine : Machine} (within : machine.Within scope)
    (nodup : machine.registers.free.Nodup)
    (concealed : ∀ slot, .object slot ∈ machine.registers.free → scope.concealed slot)
    (value target : Value) :
    (returnTo value target).Ensures machine fun _ after => after.registers.free.Nodup := by
  refine (ensures_getNil machine).bindTo fun nil _ => ?_
  split
  · intro _ _ stopped
    cases stopped
  · refine (ensures_fetch machine _ _).bindTo fun pc _ => ?_
    split
    · intro _ _ stopped
      cases stopped
    · refine (ensures_getHeap machine).bindExactly ?_
      refine (ensures_getRegisters machine).bindExactly ?_
      refine ((contextsAbove_ascends machine target _ _).and (contextsAbove_stays target _
        within.registers.activeContext machine within)).bind ?_
      intro left machine outcome
      rcases outcome with ⟨⟨ascends, rfl⟩, -, visible⟩
      refine (forM_retire_ensures machine left).bind fun _ after ⟨freed, sublist, ended⟩ => ?_
      have distinct : after.registers.free.Nodup := by
        rw [ended.nodup_iff, List.nodup_append']
        refine ⟨sublist.nodup ascends.nodup, nodup, fun context new old => ?_⟩
        have member : context ∈ left := sublist.subset new
        rcases ascends.isObject member with ⟨slot, rfl⟩
        exact within.heap.apart slot ((scope.sees_object slot).mp (visible _ member))
          (concealed slot old)
      refine (loadContext_keepsFree target _ after rfl).bind fun _ loaded ⟨same, _⟩ => ?_
      refine (push_keepsFree value _ loaded rfl).mono fun _ last ⟨kept, _⟩ => ?_
      rw [kept, same]
      exact distinct

theorem returnToHomeSender_ensures {machine : Machine} (within : machine.Within scope)
    (nodup : machine.registers.free.Nodup)
    (concealed : ∀ slot, .object slot ∈ machine.registers.free → scope.concealed slot)
    (value : Value) :
    (returnToHomeSender value).Ensures machine fun _ after => after.registers.free.Nodup := by
  refine (ensures_getRegisters machine).bindExactly ?_
  refine (ensures_fetch machine _ _).bindTo fun sender _ => ?_
  exact returnTo_ensures within nodup concealed value sender

/-- An instruction that returns stays in a scope that allows to recycle, and the
free contexts remain distinct. -/
theorem execute_return_ensures {machine : Machine} (within : machine.Within scope)
    (recycling : scope.recycling) (nodup : machine.registers.free.Nodup)
    (concealed : ∀ slot, .object slot ∈ machine.registers.free → scope.concealed slot)
    (sender : Reply.Sender) {byte : UInt8} (returns : (Opcode.ofByte byte).isReturn = true) :
    (execute sender byte).Ensures machine fun _ after =>
      after.Within scope ∧ after.registers.free.Nodup := by
  unfold execute
  cases opcode : Opcode.ofByte byte with
  | returnConstant name =>
    have same : KeepsFree (constant name) := fun free =>
      maintains_getRegisters.bind fun _ _ => by cases name <;> exact .pure trivial
    refine ((constant_stays name machine within).and (same _ machine rfl)).bind
      fun value after ⟨⟨inside, seen⟩, kept, _⟩ => ?_
    rw [← kept] at nodup concealed
    exact (returnToHomeSender_stays recycling seen after inside).and
      (returnToHomeSender_ensures inside nodup concealed value) |>.mono
        fun _ _ ended => ⟨ended.1.1, ended.2⟩
  | returnTop =>
    refine ((pop_stays machine within).and (pop_keepsFree _ machine rfl)).bind
      fun value after ⟨⟨inside, seen⟩, kept, _⟩ => ?_
    rw [← kept] at nodup concealed
    exact (returnToHomeSender_stays recycling seen after inside).and
      (returnToHomeSender_ensures inside nodup concealed value) |>.mono
        fun _ _ ended => ⟨ended.1.1, ended.2⟩
  | returnTopToCaller =>
    refine ((pop_stays machine within).and (pop_keepsFree _ machine rfl)).bind
      fun value after ⟨⟨inside, seen⟩, kept, _⟩ => ?_
    rw [← kept] at nodup concealed
    refine (ensures_getRegisters after).bindExactly ?_
    refine ((fetch_stays inside.registers.activeContext _ after inside).and
      (ensures_fetch after _ _)).bind ?_
    intro caller after outcome
    rcases outcome with ⟨⟨-, found⟩, -, rfl⟩
    exact (returnTo_stays recycling seen found after inside).and
      (returnTo_ensures inside nodup concealed value caller) |>.mono
        fun _ _ ended => ⟨ended.1.1, ended.2⟩
  | _ =>
    rw [opcode] at returns
    cases returns

theorem stepBy_return_ensures {machine : Machine} (within : machine.Within scope)
    (recycling : scope.recycling) (nodup : machine.registers.free.Nodup)
    (concealed : ∀ slot, .object slot ∈ machine.registers.free → scope.concealed slot)
    (sender : Reply.Sender) (returning : machine.Returning) :
    (stepBy sender).Ensures machine fun _ after =>
      after.Within scope ∧ after.registers.free.Nodup := by
  rcases returning with ⟨next, read, returns⟩
  refine (ensures_nextByte machine).bindTo fun byte found => ?_
  rw [read] at found
  cases found
  refine (ensures_modify _ _).bindChange fun _ => ?_
  have start : { machine with
      registers.pc := machine.registers.pc + 1
      bytecodes := machine.bytecodes + 1 }.Within scope :=
    ⟨within.heap, { within.registers with }⟩
  exact execute_return_ensures start recycling nodup concealed sender returns

end Run

end Smalltalk

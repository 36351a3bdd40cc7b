import Smalltalk.Proofs.Indexed.Apart
import Smalltalk.Proofs.Indexed.Stepping
import Smalltalk.Proofs.Machine.Send
import Smalltalk.Proofs.Primitive.Failure

namespace Smalltalk

/-! What the full send of a special selector does when its search ends at a method with a
primitive: it comes to the primitive, in a machine that is alike. -/

namespace Heap

variable {heap : Heap} {nil : Value}

/-- There is one answer for a key. -/
theorem Confirms.unique {entry other : CacheEntry} (confirms : heap.Confirms nil entry)
    (again : heap.Confirms nil other) (selector : other.selector = entry.selector)
    (species : other.species = entry.species) : other = entry := by
  rcases entry with ⟨_, _, method, number⟩
  rcases other with ⟨_, _, method', number'⟩
  dsimp only at selector species
  subst selector species
  cases confirms.walks.unique again.walks
  cases Except.ok.inj (confirms.primitive.symm.trans again.primitive)
  rfl

end Heap

namespace Run

variable {machine : Machine} {entry : CacheEntry}

/-- A lookup ends at what a search finds, whether the cache has it or not. -/
theorem lookupMethod_confirmed (isObject : entry.selector.isObject)
    (confirms : machine.heap.Confirms machine.registers.specials.nil entry)
    (cached : ∀ stored ∈ machine.registers.methodCache.entries,
      stored.selector = entry.selector →
        machine.heap.Confirms machine.registers.specials.nil stored) :
    ∃ cache, lookupMethod entry.selector entry.species machine
      = .ok (some entry) (machine.withMethodCache cache) := by
  cases present : machine.registers.methodCache.find? entry.selector entry.species
      (machine.heap.hashOf entry.selector) (machine.heap.hashOf entry.species) with
  | some stored =>
    rcases MethodCache.key_of_find? present with ⟨selector, species⟩
    have used := CacheEntry.not_isVacant (selector ▸ Value.not_isSmall isObject)
    have known := cached stored (MethodCache.mem_of_find? present used) selector
    cases confirms.unique known selector species
    exact ⟨_, bind_ok (cachedMethod_some present)⟩
  | none =>
    let missed := machine.withMethodCache machine.registers.methodCache.countMiss
    rcases confirms.walks.exists_climb_le with ⟨levels, bound, above, reached, own, before⟩
    rcases @methodFrom_of_climb missed entry.selector entry.species levels _ above entry.method
      (Nat.lt_succ_of_le bound) reached own before with ⟨counts, walked⟩
    rcases bind_eq_ok_iff.mp confirms.primitive with ⟨header, described, number⟩
    have number : (header.map MethodHeader.primitive).getD 0 = entry.primitive :=
      Except.ok.inj number
    let counted : MethodCache := { machine.registers.methodCache.countMiss with counts }
    refine ⟨counted.insert entry (machine.heap.hashOf entry.selector)
      (machine.heap.hashOf entry.species), ?_⟩
    refine (bind_ok (cachedMethod_none present)).trans ((bind_ok getHeap_apply).trans
      ((bind_ok walked).trans ((bind_ok (readHeap_ok described)).trans ?_)))
    rw [number]
    rfl

/-- A message whose search is known comes to what the primitive of its method replies. -/
theorem sendToClass_confirmed (isObject : entry.selector.isObject)
    (confirms : machine.heap.Confirms machine.registers.specials.nil entry)
    (cached : ∀ stored ∈ machine.registers.methodCache.entries,
      stored.selector = entry.selector →
        machine.heap.Confirms machine.registers.specials.nil stored)
    (numbered : 0 < entry.primitive) (depth count : Nat) :
    ∃ found : Machine, found.Alike machine ∧ found.registers.argumentCount = count ∧
      sendToClass (depth + 1) entry.selector count entry.species machine = (do
        let answered ← respond (sendToClass depth) entry.primitive
        unless answered do activateMethod) found := by
  let sending := machine.sending entry.selector count entry.species
  rcases @lookupMethod_confirmed sending entry isObject confirms cached with ⟨cache, looked⟩
  let found : Machine := { sending.withMethodCache cache with
    registers := { (sending.withMethodCache cache).registers with
      newMethod := entry.method, primitiveIndex := entry.primitive } }
  have resolved : resolveMessage entry.species sending = .ok true found :=
    (bind_ok getRegisters_apply).trans (bind_ok looked)
  have ended : findMethodBy resolveMessage entry.species sending = .ok () found :=
    bind_ok resolved
  refine ⟨found, rfl, rfl, ?_⟩
  refine (bind_ok (modifyRegisters_apply _)).trans ((bind_ok ended).trans
    ((bind_ok getRegisters_apply).trans ?_))
  dsimp only [found]
  rw [if_pos numbered]
  rfl

end Run

namespace Primitive

/-- Every number of the table lies below those of the quick primitives, and zero stands for
no primitive. -/
theorem number_of_ofNumber? {number : Nat} {primitive : Primitive}
    (known : ofNumber? number = some primitive) : 0 < number ∧ number < Run.quickSelf := by
  have bounds : ∀ row ∈ table, 0 < row.1 ∧ row.1 < Run.quickSelf := by decide +kernel
  rcases Option.map_eq_some_iff.mp known with ⟨row, listed, -⟩
  rcases List.lookup_eq_some_iff.mp listed with ⟨before, after, split, -⟩
  have member : (number, row) ∈ table := by
    rw [split]
    simp
  exact bounds _ member

end Primitive

namespace Run

variable {machine : Machine}

/-- The reply of a primitive of the table. -/
theorem respond_apply {number : Nat} {primitive : Primitive} (send : Reply.Sender)
    (known : Primitive.ofNumber? number = some primitive) :
    respond send number machine = (do
      let succeeded ← primitive.run send machine.registers.argumentCount
      if !succeeded then
        modifyRegisters fun after => { after with sp := machine.registers.sp }
      return succeeded) machine := by
  rcases Primitive.number_of_ofNumber? known with ⟨-, below⟩
  have slow : ¬ (quickSelf ≤ number ∧ number ≤ quickLast) := by omega
  rw [respond, if_neg slow, known]
  exact bind_ok getRegisters_apply

/-- When a primitive that fails has changed nothing, the stack pointer is restored to what it
is. -/
theorem respond_decides {number : Nat} {primitive : Primitive} (send : Reply.Sender)
    (known : Primitive.ofNumber? number = some primitive) {succeeds : Machine → Prop}
    (decides : (primitive.run send machine.registers.argumentCount).Ensures machine
      fun answered after => if answered then succeeds after else after = machine) :
    (respond send number).Ensures machine
      fun answered after => if answered then succeeds after else after = machine := by
  intro answered after ended
  rw [respond_apply send known] at ended
  revert answered after
  refine decides.bind fun succeeded between outcome => ?_
  cases succeeded with
  | true => exact .pure outcome
  | false =>
    subst outcome
    exact .pure rfl

end Run

namespace Reply

open Run

variable {machine : Machine} {chars : Bool} {part : IndexedPart} {owner : HeapObject}
  {format : ClassFormat} {place : Nat} {index : Value}

theorem classOf_object {value : Value} (here : machine.heap.get? value = some owner) :
    classOf value machine = .ok owner.species machine := by
  cases value with
  | small n => cases here
  | object slot => exact bind_ok (readHeap_ok (Heap.object_eq_ok_iff.mpr here))

/-- The part of an object that its class describes. -/
theorem indexedPart_described (here : machine.heap.get? part.object = some owner)
    (described : machine.heap.classFormat owner.species = .ok format)
    (same : IndexedPart.ofBody? part.object format chars owner.body = some part) :
    indexedPart part.object chars machine = .ok (some part) machine := by
  have isObject : part.object.isSmall = false := by
    generalize part.object = object at here ⊢
    cases object with
    | small n => cases here
    | object slot => rfl
  have indexable : format.isIndexable = true := by
    unfold IndexedPart.ofBody? at same
    split at same
    · assumption
    · cases same
  unfold IndexedPart.ofBody? at same
  rw [if_pos indexable] at same
  have found : Run.object part.object machine = .ok owner machine :=
    readHeap_ok (Heap.object_eq_ok_iff.mpr here)
  rw [indexedPart, isObject]
  refine (bind_ok (classOf_object here)).trans ((bind_ok (readHeap_ok described)).trans ?_)
  rw [indexable]
  refine (bind_ok found).trans ?_
  generalize owner.body = body at same
  cases body <;> exact congrArg (fun answer => EStateM.Result.ok answer machine) same

theorem isCacheable_ends {receiver selector : Value} {message : CommonMessage}
    (here : machine.heap.get? receiver = some owner)
    (fetched : machine.heap.fetch machine.registers.specials.specialSelectors (message.index * 2)
      = .ok selector) :
    (isCacheable receiver message).Ends machine := by
  refine .bindOk getRegisters_apply (.bindOk (fetch_ok fetched) ?_)
  split
  · exact .of_ok (pure_apply false)
  · refine .bindOk (classOf_object here) ?_
    split
    · exact .of_ok (pure_apply false)
    · exact .bindOk get_apply (.of_ok (pure_apply _))

theorem rememberPart_apply {access : Access} :
    rememberPart part access machine = .ok () { machine with
      registers.atCache := machine.registers.atCache.insert part
        (machine.heap.hashOf part.object) access } := rfl

/-- It makes no difference whether the part is remembered before something else is done. -/
theorem remembering_apply {α : Type} {receiver selector : Value} {message : CommonMessage}
    (here : machine.heap.get? receiver = some owner)
    (fetched : machine.heap.fetch machine.registers.specials.specialSelectors (message.index * 2)
      = .ok selector) (access : Access) (next : Run α) :
    ∃ after : Machine, after.Alike machine ∧ (do
      if ← isCacheable receiver message then rememberPart part access
      next) machine = next after := by
  rcases isCacheable_ends here fetched with ⟨cacheable, between, ended⟩
  rcases isCacheable_ensures machine receiver message cacheable between ended with ⟨-, rfl⟩
  cases cacheable with
  | true =>
    refine ⟨_, ?_, (bind_ok ended).trans (bind_ok rememberPart_apply)⟩
    rfl
  | false => exact ⟨between, .refl between, bind_ok ended⟩

end Reply

/-! ## The two accesses -/

namespace Access

/-- The number of arguments of the message that asks for an access. -/
def count : Access → Nat
  | .read => 1
  | .write => 2

/-- The instruction that asks for an access. -/
def opcode : Access → UInt8
  | .read => 192
  | .write => 193

/-- What the instruction does for a receiver whose part is remembered. -/
def perform (part : IndexedPart) : Access → Run Bool
  | .read => do
    match Reply.place? (← Run.operand 0) part.size with
    | none => return false
    | some place => Run.succeed 1 (← Reply.readElement part place)
  | .write => do
    match Reply.place? (← Run.operand 1) part.size with
    | none => return false
    | some place =>
      let value ← Run.operand 0
      if !(← Reply.writeElement part place value) then return false
      Run.succeed 2 value

end Access

namespace Machine

/-- The part that is remembered for a receiver. -/
def recalled? (machine : Machine) (access : Access) (receiver : Value) : Option IndexedPart :=
  if receiver.isSmall then none
  else machine.registers.atCache.find? receiver (machine.heap.hashOf receiver) access

end Machine

namespace Run

open Reply

variable {machine found : Machine} {access : Access} {receiver : Value} {part : IndexedPart}
  {sender : Reply.Sender}

theorem rememberedPart_apply :
    rememberedPart receiver access machine
      = .ok (machine.recalled? access receiver) machine := by
  rw [rememberedPart, Machine.recalled?]
  split
  · exact pure_apply none
  · exact bind_ok get_apply

theorem execute_access (sender : Reply.Sender) (access : Access) :
    execute sender access.opcode = (do
      unless ← inlineCommon access.message do sendSpecial sender access.message.index) := by
  have decoded : Opcode.ofByte access.opcode = .common access.message := by
    cases access <;> decide
  rw [execute, decoded]

theorem inline_recalled (asked : operand access.count machine = .ok receiver machine)
    (recalled : machine.recalled? access receiver = some part) :
    inlineCommon access.message machine = access.perform part machine := by
  have remembered : rememberedPart receiver access machine = .ok (some part) machine :=
    recalled ▸ rememberedPart_apply
  cases access <;> exact (bind_ok asked).trans (bind_ok remembered)

theorem inline_forgotten (asked : operand access.count machine = .ok receiver machine)
    (forgotten : machine.recalled? access receiver = none) :
    inlineCommon access.message machine = .ok false machine := by
  have remembered : rememberedPart receiver access machine = .ok none machine :=
    forgotten ▸ rememberedPart_apply
  cases access <;> exact (bind_ok asked).trans (bind_ok remembered)

theorem inline_fails {stop : Stop} (failed : operand access.count machine = .error stop found) :
    inlineCommon access.message machine = .error stop found := by
  cases access <;> exact bind_error failed

end Run

namespace Reply

open Run

variable {machine found : Machine} {part : IndexedPart} {owner : HeapObject}
  {format : ClassFormat} {chars : Bool} {selector : Value}

theorem succeed_blind {count : Nat} {value : Value} : Blind (succeed count value) :=
  Blind.replace.bind fun _ => .pure

/-- The primitive reads what the instruction reads. -/
theorem elementAt_outcome (alike : machine.Alike found)
    (receiver : operand 1 found = .ok part.object found)
    (here : found.heap.get? part.object = some owner)
    (described : found.heap.classFormat owner.species = .ok format)
    (same : IndexedPart.ofBody? part.object format chars owner.body = some part)
    (fetched : found.heap.fetch found.registers.specials.specialSelectors
      (CommonMessage.atIndex.index * 2) = .ok selector)
    (room : ∀ index place word, operand 0 machine = .ok index machine →
      place? index part.size = some place → part.kind = .words →
        wordAt part.object (part.fixed + place) machine = .ok word machine →
          Value.ofInt? word.toNat = none → machine.heap.size < machine.heap.capacity) :
    (Access.read.perform part).outcome machine = (elementAt chars 1).outcome found := by
  refine Eq.trans ?_ (outcome_of_eq ((bind_ok receiver).trans
    (bind_ok (indexedPart_described here described same)))).symm
  refine outcome_bind (Blind.operand machine found alike) fun index before after ended again _ => ?_
  rcases ensures_operand machine 0 index before ended with ⟨-, rfl⟩
  rcases ensures_operand found 0 index after again with ⟨-, rfl⟩
  cases inside : place? index part.size with
  | none => exact Blind.pure before after alike
  | some place =>
    rcases remembering_apply here fetched .read (do succeed 1 (← readElement part place)) with
      ⟨last, later, remembered⟩
    rw [outcome_of_eq remembered]
    refine outcome_bind (readElement_outcome (alike.trans later.symm) fun word words read large =>
      room index place word ended inside words read large) fun value first second _ _ same => ?_
    exact succeed_blind first second same

/-- The primitive writes what the instruction writes. -/
theorem setElementAt_outcome (alike : machine.Alike found)
    (receiver : operand 2 found = .ok part.object found)
    (here : found.heap.get? part.object = some owner)
    (described : found.heap.classFormat owner.species = .ok format)
    (same : IndexedPart.ofBody? part.object format chars owner.body = some part)
    (fetched : found.heap.fetch found.registers.specials.specialSelectors
      (CommonMessage.atIndexPut.index * 2) = .ok selector) :
    (Access.write.perform part).outcome machine = (setElementAt chars 2).outcome found := by
  refine Eq.trans ?_ (outcome_of_eq ((bind_ok receiver).trans
    (bind_ok (indexedPart_described here described same)))).symm
  refine outcome_bind (Blind.operand machine found alike) fun index before after ended again _ => ?_
  rcases ensures_operand machine 1 index before ended with ⟨-, rfl⟩
  rcases ensures_operand found 1 index after again with ⟨-, rfl⟩
  cases inside : place? index part.size with
  | none => exact Blind.pure before after alike
  | some place =>
    refine outcome_bind (Blind.operand before after alike)
      fun value first second ended again _ => ?_
    rcases ensures_operand before 0 value first ended with ⟨-, rfl⟩
    rcases ensures_operand after 0 value second again with ⟨-, rfl⟩
    refine outcome_bind (writeElement_blind first second alike)
      fun accepted written set _ ended same => ?_
    cases accepted with
    | false => exact Blind.pure written set same
    | true =>
      rcases writeElement_ensures second part place value true set ended with
        ⟨⟨registers, overwrites⟩, -⟩
      rcases overwrites.persists part.object owner here with ⟨later, there, -⟩
      have answered : ∃ selector, set.heap.fetch set.registers.specials.specialSelectors
          (CommonMessage.atIndexPut.index * 2) = .ok selector := by
        rw [registers]
        rcases overwrites.fetch second.registers.specials.specialSelectors
          (CommonMessage.atIndexPut.index * 2) with kept | new
        · exact ⟨selector, kept.trans fetched⟩
        · exact ⟨value, new⟩
      rcases answered with ⟨selector, fetched⟩
      rcases remembering_apply there fetched .write (succeed 2 value) with
        ⟨last, alike, remembered⟩
      refine Eq.trans ?_ (outcome_of_eq remembered).symm
      exact succeed_blind written last (same.trans alike.symm)

end Reply

namespace Access

open Run Reply

/-- An access that is not done has changed nothing. -/
theorem perform_ensures (access : Access) (part : IndexedPart) (machine : Machine) :
    (access.perform part).Ensures machine fun done after => done = false → after = machine := by
  have answered (count : Nat) (value : Value) (start : Machine) :
      (succeed count value).Ensures start fun done after => done = false → after = machine :=
    (Answers.succeed start).mono fun _ _ answered failed =>
      absurd (failed.symm.trans answered) Bool.false_ne_true
  have any {α : Type} (run : Run α) (start : Machine) : run.Ensures start fun _ _ => True :=
    fun _ _ _ => trivial
  cases access with
  | read =>
    refine (ensures_operand machine 0).bindTo fun index _ => ?_
    cases place? index part.size with
    | none => exact .pure fun _ => rfl
    | some place => exact (any _ machine).bind fun value after _ => answered 1 value after
  | write =>
    refine (ensures_operand machine 1).bindTo fun index _ => ?_
    cases place? index part.size with
    | none => exact .pure fun _ => rfl
    | some place =>
      refine (ensures_operand machine 0).bindTo fun value _ => ?_
      refine (writeElement_ensures machine part place value).bind fun accepted after ended => ?_
      cases accepted with
      | false => exact .pure fun _ => ended.2 rfl
      | true => exact answered 2 value after

end Access

end Smalltalk

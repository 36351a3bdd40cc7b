import Smalltalk.Machine.Send
import Smalltalk.Proofs.Primitive.Allocation
import Smalltalk.Proofs.Primitive.Control
import Smalltalk.Proofs.Primitive.Indexed
import Smalltalk.Proofs.Primitive.System

namespace Smalltalk

/-! Every primitive and every activation leads to a later scope, and so does a
message, however deep it performs others. -/

/-- The machine at the beginning of a message. -/
def Machine.sending (machine : Machine) (selector : Value) (count : Nat) (species : Value) : Machine :=
  { machine with registers := { machine.registers with
      messageSelector := selector, argumentCount := count, lookupClass := species } }

namespace Run

variable {scope : Scope}

/-! ## Activation -/

/-- The method that was found is needed after its context was made. The register of
the method found anchors it. -/
theorem activateMethod_moves : Moves scope activateMethod fun _ _ => True := by
  intro machine within
  refine (ensures_getRegisters machine).bindExactly ?_
  refine ((methodHeader_stays _ machine within).and (methodHeader_ensures machine _)).bind
    fun header machine ⟨_, same⟩ => ?_
  subst same
  have method : machine.Anchors machine.registers.newMethod :=
    Machine.anchors_of_mem (by simp [Registers.values_forget])
      (within.heap.holds within.registers.newMethod)
  refine (newContext_ensures within header.needsLargeFrame).bind
    fun context after ⟨later, narrows, inside, seen, kept⟩ => ?_
  have finish : Stays later (do
      let registers ← getRegisters
      let count := registers.argumentCount
      store context ContextField.sender registers.activeContext
      store context ContextField.pc (← encodePc machine.registers.newMethod 0)
      store context ContextField.stackPointer (.ofInt header.temporaryCount)
      store context ContextField.method machine.registers.newMethod
      copyOperands context (count + 1) ContextField.receiver
      drop (count + 1)
      modifyRegisters fun registers => { registers with reclaimable := registers.reclaimable + 1 }
      activate context
      checkInterrupts) fun _ => True := by
    apply getRegisters_stays.bind
    intro registers within
    apply (store_stays _ _ within.activeContext).bind
    intro _ _
    apply (encodePc_stays _ _).bind
    intro pc start
    refine (store_stays _ _ start).bind fun _ _ => ?_
    apply (store_stays _ _ (later.sees_ofInt _)).bind
    intro _ _
    apply (store_stays _ _ (kept _ method)).bind
    intro _ _
    apply (copyOperands_stays context _ _).bind
    intro _ _
    refine (drop_stays _).bind fun _ _ => ?_
    refine .bind (modifyRegisters_stays fun _ within => { within with }) fun _ _ => ?_
    exact (activate_stays seen).bind fun _ _ => checkInterrupts_stays
  exact (finish after inside).mono fun _ _ ended _ => ⟨later, narrows, ended.1, trivial⟩

/-! ## Primitives by number -/

theorem primitive_leads {send : Reply.Sender} (sends : Reply.Sends send) (primitive : Primitive)
    (count : Nat) : Leads scope (primitive.run send count) (· = true) fun _ _ => True := by
  cases primitive with
  | integer operation => exact (Reply.integerOperation_stays operation count).leads
  | compareIntegers comparison => exact (Reply.integerComparison_stays comparison count).leads
  | makePoint => exact (Reply.pointOf_moves count).leads
  | asFloat => exact (Reply.asFloat_moves count).leads
  | float operation =>
    cases operation with
    | divide => exact (Reply.floatDivision_moves count).leads
    | add => exact (Reply.floatOperation_moves .add count).leads
    | subtract => exact (Reply.floatOperation_moves .subtract count).leads
    | multiply => exact (Reply.floatOperation_moves .multiply count).leads
  | compareFloats comparison => exact (Reply.floatComparison_stays comparison count).leads
  | truncated => exact (Reply.truncated_stays count).leads
  | elementAt chars => exact (Reply.elementAt_moves chars count).leads
  | setElementAt chars => exact (Reply.setElementAt_stays chars count).leads
  | size => exact (Reply.sizeOf_stays count).leads
  | literalAt => exact (Reply.literalAt_stays count).leads
  | literalAtPut => exact (Reply.setLiteralAt_stays count).leads
  | basicNew => exact (Reply.basicNew_moves count).leads
  | basicNewWithSize => exact (Reply.basicNewWithSize_moves count).leads
  | instanceVariableAt => exact (Reply.instanceVariableAt_stays count).leads
  | instanceVariableAtPut => exact (Reply.setInstanceVariableAt_stays count).leads
  | identityHash => exact (Reply.identityHash_stays count).leads
  | someInstance => exact Reply.someInstance_leads count
  | nextInstance => exact Reply.nextInstance_leads count
  | newMethod => exact (Reply.newMethod_moves count).leads
  | blockCopy => exact (Reply.blockCopy_moves count).leads
  | blockValue => exact (Reply.blockValue_stays count).leads
  | perform => exact Reply.perform_leads sends count
  | performWithArguments => exact Reply.performWithArguments_leads sends count
  | performInSuperclass => exact Reply.performInSuperclass_leads sends count
  | signal => exact (Reply.signalSemaphore_stays count).leads
  | wait => exact (Reply.waitSemaphore_stays count).leads
  | resume => exact (Reply.resumeProcess_stays count).leads
  | suspend => exact (Reply.suspendProcess_stays count).leads
  | yieldActive => exact Reply.yieldActive_stays.leads
  | relinquish => exact (Reply.relinquish_stays count).leads
  | flushCaches => exact Reply.flushCaches_stays.leads
  | flushMethod => exact (Reply.flushMethod_stays count).leads
  | flushSelector => exact (Reply.flushSelector_stays count).leads
  | mousePoint => exact (Reply.mousePoint_moves count).leads
  | setMousePoint => exact (Reply.setMousePoint_stays count).leads
  | mouseButtons => exact (Reply.mouseButtons_stays count).leads
  | nextKey => exact (Reply.nextKey_stays count).leads
  | peekKey => exact (Reply.peekKey_stays count).leads
  | beCursor => exact (Reply.beCursor_stays count).leads
  | beDisplay => exact (Reply.beDisplay_stays count).leads
  | forceDisplay => exact (Reply.forceDisplay_stays count).leads
  | screenSize => exact (Reply.screenSize_moves count).leads
  | replaceFromTo => exact (Reply.replaceFromTo_stays count).leads
  | identical => exact (Reply.identical_stays count).leads
  | species => exact (Reply.species_stays count).leads
  | slotsLeft => exact (Reply.slotsLeft_stays count).leads
  | quit => exact Reply.quit_stays.leads
  | become twoWay => exact (Reply.become_stays twoWay count).leads
  | specialObjectsArray => exact (Reply.specialObjectsArray_stays count).leads
  | fullCollection => exact (Reply.fullCollection_moves count).leads
  | partialCollection => exact (Reply.partialCollection_moves count).leads
  | millisecondClock => exact (Reply.millisecondClock_stays count).leads
  | signalAt => exact (Reply.signalAt_stays count).leads
  | secondsClock => exact (Reply.secondsClock_moves count).leads
  | someObject => exact Reply.someObject_leads count
  | nextObject => exact Reply.nextObject_leads count
  | copy => exact (Reply.copy_moves count).leads

theorem quickResult_stays (number : Nat) {receiver : Value} (seen : scope.Sees receiver) :
    Stays scope (quickResult number receiver) fun result =>
      ∀ value, result = some value → scope.Sees value := by
  apply getRegisters_stays.bind
  intro registers within
  have special {value : Value} (member : value ∈ registers.specials.values) :
      ∀ other, some value = some other → scope.Sees other := by
    intro _ same
    cases same
    exact within.specials value member
  have constant (n : Int) : ∀ other, some (Value.ofInt n) = some other → scope.Sees other := by
    intro _ same
    cases same
    exact scope.sees_ofInt n
  dsimp only
  split
  · exact .pure (by simpa using seen)
  · exact .pure (special (by simp [Specials.values]))
  · exact .pure (special (by simp [Specials.values]))
  · exact .pure (special (by simp [Specials.values]))
  · exact .pure (constant _)
  · exact .pure (constant _)
  · exact .pure (constant _)
  · exact .pure (constant _)
  · apply getHeap_stays.bind
    intro heap inside
    refine .pure fun value found => ?_
    cases readable : (heap.get? receiver).bind HeapObject.pointers? with
    | none => simp [readable] at found
    | some fields =>
      rw [readable] at found
      exact inside.sees_fields seen readable (Array.mem_of_getElem? found)

theorem quickPrimitive_stays (number : Nat) :
    Stays scope (quickPrimitive number) fun _ => True := by
  apply getRegisters_stays.bind
  intro registers _
  refine (operand_stays _).bind fun receiver seen => ?_
  apply (quickResult_stays number seen).bind
  intro result found
  cases result with
  | none => exact .pure trivial
  | some value => exact succeed_stays _ (found value rfl)

theorem respond_leads {send : Reply.Sender} (sends : Reply.Sends send) (number : Nat) :
    Leads scope (respond send number) (· = true) fun _ _ => True := by
  refine .ite (fun _ => (quickPrimitive_stays number).leads) fun _ => ?_
  cases Primitive.ofNumber? number with
  | none => exact Moves.leads (.pure trivial)
  | some primitive =>
    apply getRegisters_stays.bindLeads
    intro registers _
    refine (primitive_leads sends primitive _).bind ?_ ?_
    · intro later either failed _
      rcases either with - | -
      · refine Stays.leads (.bind (modifyRegisters_stays fun _ within => { within with }) ?_)
        exact fun _ _ => .pure trivial
      · exact absurd rfl failed
    · intro _ same
      rcases same with rfl
      exact ⟨true, rfl, rfl, fun _ _ => trivial⟩

/-! ## Messages -/

theorem sendToClassBy_sends {resolve : Resolver} (searches : Searches resolve) (depth : Nat) :
    Reply.Sends (sendToClassBy resolve depth) := by
  induction depth with
  | zero => exact fun scope selector count species _ _ => Moves.leads fun _ _ => .throw
  | succ depth induction =>
    intro scope selector count species known seen machine within
    refine (ensures_modifyRegisters machine _).bindChange fun _ => ?_
    have start : { machine with
        registers.messageSelector := selector
        registers.argumentCount := count
        registers.lookupClass := species }.Within scope :=
      ⟨within.heap, { within.registers with messageSelector := known, lookupClass := seen }⟩
    refine (findMethodBy_ensures searches start).bind fun _ found ⟨later, narrows, inside⟩ => ?_
    have answer : Leads later (do
        let number := (← getRegisters).primitiveIndex
        let answered ←
          if 0 < number then respond (sendToClassBy resolve depth) number else pure false
        unless answered do activateMethod) (fun _ => True) fun _ _ => True := by
      apply getRegisters_stays.bindLeads
      intro registers _
      refine .ite (fun _ => (respond_leads induction _).bind ?_ ?_) fun _ => ?_
      · intro latest either failed _
        rcases either with - | -
        · exact activateMethod_moves.leads
        · exact absurd rfl failed
      · intro _ same
        rcases same with rfl
        exact ⟨(), rfl, trivial, fun _ _ => trivial⟩
      · have failed : Stays later (pure false : Run Bool) (· = false) := .pure rfl
        exact failed.bindLeads (by rintro _ rfl; exact activateMethod_moves.leads)
    refine (answer found inside).mono fun _ after led discreet => ?_
    rcases led fun _ slot reached free spare =>
      discreet trivial slot reached free (narrows.spare slot spare) with ⟨latest, further, there, _⟩
    exact ⟨latest, further.trans narrows, there, trivial⟩

end Run

end Smalltalk

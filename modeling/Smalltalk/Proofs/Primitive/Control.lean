import Smalltalk.Primitive.Control
import Smalltalk.Proofs.Machine.Lookup
import Smalltalk.Proofs.Primitive.Basic

namespace Smalltalk

/-! Blocks, messages whose selector is computed, and processes. A message that is
performed leads wherever sending it leads. -/

namespace Reply

open Run

variable {scope : Scope}

/-! ## Blocks -/

/-- The home of a context is anchored with it. -/
theorem homeOf_ensures (machine : Machine) (closed : machine.heap.Closed) {context : Value}
    (anchored : machine.Anchors context) :
    (homeOf context).Ensures machine fun home after =>
      after = machine ∧ machine.Anchors home := by
  refine (ensures_fetch machine context _).bindTo fun method _ => ?_
  split
  · refine (ensures_fetch machine context _).mono ?_
    intro home machine ended
    rcases ended with ⟨found, rfl⟩
    exact ⟨rfl, Machine.anchors_of_fetch closed anchored found⟩
  · exact .pure ⟨rfl, anchored⟩

theorem operand_ensures {machine : Machine} (within : machine.Within scope) (depth : Nat) :
    (operand depth).Ensures machine fun value after => after = machine ∧ machine.Anchors value := by
  refine (ensures_operand machine depth).mono ?_
  intro value machine ended
  rcases ended with ⟨found, rfl⟩
  have active : machine.Anchors machine.registers.activeContext :=
    Machine.anchors_of_mem (by simp [Registers.values_forget])
      (within.heap.holds within.registers.activeContext)
  exact ⟨rfl, Machine.anchors_of_fetch within.heap.closed active found⟩

/-- The home context of a new block is needed after the block was made. The context
on the stack anchors it. -/
theorem blockCopy_moves (count : Nat) : Moves scope (blockCopy count) fun _ _ => True := by
  refine .ite (fun _ => .pure trivial) fun _ machine within => ?_
  refine (operand_ensures within 1).bind ?_
  intro context machine outcome
  rcases outcome with ⟨rfl, anchored⟩
  refine (operand_ensures within 0).bind ?_
  intro argumentCount machine outcome
  rcases outcome with ⟨rfl, -⟩
  refine (ensures_get machine).bindExactly ?_
  split
  · exact Moves.pure trivial machine within
  · rename_i isBlock
    have small (scope : Scope) : scope.Sees argumentCount := by
      cases argumentCount with
      | small n => exact .small n
      | object slot => exact absurd (.inl rfl) isBlock
    refine (homeOf_ensures machine within.heap.closed anchored).bind ?_
    intro home machine outcome
    rcases outcome with ⟨rfl, kept⟩
    refine (ensures_modifyRegisters machine _).bindChange fun _ => ?_
    refine (ensures_getRegisters _).bindExactly ?_
    refine (ensures_getHeap _).bindExactly ?_
    have inside : { machine with registers.reclaimable := 0 }.Within scope :=
      ⟨within.heap, { within.registers with }⟩
    refine .bind (register_ensures inside ?_) fun block after ⟨later, gains⟩ => ?_
    · apply Scope.seesInto_of_pointers
        (within.registers.specials _ (by simp [Specials.values])) rfl
      intro value member
      rw [Array.eq_of_mem_replicate member]
      exact within.registers.sees_nil
    · have finish (method : Value) (pc : Nat) : Stays later (do
          let initialPc ← encodePc method pc
          store block BlockField.initialPc initialPc
          store block ContextField.pc initialPc
          store block ContextField.stackPointer .zero
          store block BlockField.argumentCount argumentCount
          store block BlockField.home home
          succeed count block) fun _ => True := by
        apply (encodePc_stays method pc).bind
        intro initialPc seen
        apply (store_stays _ _ seen).bind
        intro _ _
        refine (store_stays _ _ seen).bind fun _ _ => ?_
        apply (store_stays _ _ later.sees_zero).bind
        intro _ _
        apply (store_stays _ _ (small later)).bind
        intro _ _
        apply (store_stays _ _ (gains.kept home kept)).bind
        intro _ _
        exact succeed_stays count gains.sees
      refine (finish _ _ after gains.within).mono fun _ _ ended _ => ?_
      exact ⟨later, gains.narrows, ended.1, trivial⟩

theorem blockValue_stays (count : Nat) : Stays scope (blockValue count) fun _ => True := by
  apply (operand_stays count).bind
  intro block seen
  refine .ite (fun _ => .pure trivial) fun _ => ?_
  apply (classOf_stays seen).bind
  intro species _
  refine getRegisters_stays.bind fun _ _ => ?_
  refine .ite (fun _ => .pure trivial) fun _ => (fetchInt_stays block _).bind fun wanted _ => ?_
  refine .ite (fun _ => .pure trivial) fun _ => (fetch_stays seen _).bind fun caller _ => ?_
  apply getNil_stays.bind
  intro nil _
  refine .ite (fun _ => .pure trivial) fun _ => ?_
  apply (copyOperands_stays block count _).bind
  intro _ _
  apply (fetch_stays seen _).bind
  intro initialPc start
  refine (store_stays _ _ start).bind fun _ _ => ?_
  apply (store_stays _ _ (scope.sees_ofInt _)).bind
  intro _ _
  apply getRegisters_stays.bind
  intro registers within
  apply (store_stays _ _ within.activeContext).bind
  intro _ _
  refine (drop_stays _).bind fun _ _ => ?_
  exact (activate_stays seen).bind fun _ _ => .pure trivial

/-! ## Computed selectors -/

/-- Sending a message with an object as its selector leads to a later scope. -/
def Sends (send : Sender) : Prop :=
  ∀ scope selector count species, scope.Sees selector → scope.Sees species →
    Leads scope (send selector count species) (fun _ => True) fun _ _ => True

theorem mismatches_stays {selector species : Value} (isObject : selector.isSmall = false)
    (known : scope.Sees selector) (seen : scope.Sees species) (count : Nat) :
    Stays scope (mismatches selector species count) fun _ => True := by
  apply (lookupMethod_stays isObject known seen).bind
  intro entry _
  cases entry with
  | none => exact .pure trivial
  | some entry =>
    refine .bind (readHeap_stays fun _ _ _ _ => trivial) fun header _ => ?_
    cases header with
    | none => exact .pure trivial
    | some header => exact .pure trivial

theorem shiftDown_stays {context : Value} (seen : scope.Sees context) (count slot : Nat) :
    Stays scope (shiftDown context count slot) fun _ => True := by
  induction count generalizing slot with
  | zero => exact .pure trivial
  | succ count induction =>
    apply (fetch_stays seen _).bind
    intro value found
    exact (store_stays _ _ found).bind fun _ _ => induction (slot + 1)

/-- A message that was performed has been answered when it has been sent. -/
theorem performed_leads {send : Sender} (sends : Sends send) {selector species : Value}
    (known : scope.Sees selector) (seen : scope.Sees species) (count : Nat) :
    Leads scope (do
      send selector count species
      return true) (· = true) fun _ _ => True :=
  (sends scope selector count species known seen).bind
    (fun _ _ absurd _ => (absurd trivial).elim) fun _ _ => ⟨true, rfl, rfl, fun _ _ => trivial⟩

theorem perform_leads {send : Sender} (sends : Sends send) (count : Nat) :
    Leads scope (perform send count) (· = true) fun _ _ => True := by
  have refused : Leads scope (pure false : Run Bool) (· = true) fun _ _ => True :=
    Moves.leads (.pure trivial)
  refine .ite (fun _ => refused) fun _ => ?_
  apply (argument_stays count 0).bindLeads
  intro selector known
  refine .ite (fun _ => refused) fun small => ?_
  have isObject : selector.isSmall = false := by simpa using small
  apply (receiverOf_stays count).bindLeads
  intro receiver seen
  apply (classOf_stays seen).bindLeads
  intro species found
  apply (mismatches_stays isObject known found _).bindLeads
  intro _ _
  refine .ite (fun _ => refused) ?_
  refine fun _ => getRegisters_stays.bindLeads fun registers within => ?_
  apply (shiftDown_stays within.activeContext _ _).bindLeads
  intro _ _
  exact (drop_stays 1).bindLeads fun _ _ => performed_leads sends known found _

theorem performWithArray_leads {send : Sender} (sends : Sends send) (count : Nat)
    {selector array species : Value} (known : scope.Sees selector) (listed : scope.Sees array)
    (found : scope.Sees species) :
    Leads scope (performWithArray send count selector array species) (· = true)
      fun _ _ => True := by
  have refused : Leads scope (pure false : Run Bool) (· = true) fun _ _ => True :=
    Moves.leads (.pure trivial)
  refine .ite (fun _ => refused) fun small => getRegisters_stays.bindLeads fun registers _ => ?_
  have isObject : selector.isSmall = false := by
    cases selector with
    | small n => simp [Value.isSmall] at small
    | object slot => rfl
  apply (classOf_stays listed).bindLeads
  intro _ _
  refine .ite (fun _ => refused) fun _ => ?_
  apply (object_stays listed).bindLeads
  intro owner into
  refine getHeap_stays.bindLeads fun heap _ => ?_
  refine .ite (fun _ => refused) fun _ => ?_
  apply (mismatches_stays isObject known found _).bindLeads
  intro _ _
  refine .ite (fun _ => refused) ?_
  refine fun _ => (drop_stays count).bindLeads fun _ _ => ?_
  refine (forM_stays fun value member => push_stays (into value ?_)).bindLeads fun _ _ => ?_
  · exact List.mem_cons_of_mem _ member
  · exact performed_leads sends known found _

theorem performWithArguments_leads {send : Sender} (sends : Sends send) (count : Nat) :
    Leads scope (performWithArguments send count) (· = true) fun _ _ => True := by
  refine .ite (fun _ => Moves.leads (.pure trivial)) fun _ => ?_
  apply (argument_stays count 0).bindLeads
  intro selector known
  apply (argument_stays count 1).bindLeads
  intro array listed
  apply (receiverOf_stays count).bindLeads
  intro receiver seen
  apply (classOf_stays seen).bindLeads
  intro species found
  exact performWithArray_leads sends count known listed found

theorem performInSuperclass_leads {send : Sender} (sends : Sends send) (count : Nat) :
    Leads scope (performInSuperclass send count) (· = true) fun _ _ => True := by
  have refused : Leads scope (pure false : Run Bool) (· = true) fun _ _ => True :=
    Moves.leads (.pure trivial)
  refine .ite (fun _ => refused) fun _ => ?_
  apply (argument_stays count 0).bindLeads
  intro selector known
  apply (argument_stays count 1).bindLeads
  intro array listed
  apply (argument_stays count 2).bindLeads
  intro lookup start
  apply (receiverOf_stays count).bindLeads
  intro receiver seen
  apply (classOf_stays seen).bindLeads
  intro species found
  refine .ite (fun _ => refused) fun _ => ?_
  apply getHeap_stays.bindLeads
  intro heap _
  apply (inheritsFrom_stays lookup _ found).bindLeads
  intro _ _
  refine .ite (fun _ => refused) fun _ => ?_
  exact performWithArray_leads sends count known listed start

/-! ## Processes -/

theorem signalSemaphore_stays (count : Nat) :
    Stays scope (signalSemaphore count) fun _ => True := by
  apply (receiverOf_stays count).bind
  intro semaphore seen
  refine getHeap_stays.bind fun _ _ => ?_
  exact .ite (fun _ => .pure trivial) fun _ => (signal_stays seen).bind fun _ _ => .pure trivial

theorem waitSemaphore_stays (count : Nat) : Stays scope (waitSemaphore count) fun _ => True := by
  apply (receiverOf_stays count).bind
  intro semaphore seen
  refine getHeap_stays.bind fun _ _ => ?_
  exact .ite (fun _ => .pure trivial) fun _ => (wait_stays seen).bind fun _ _ => .pure trivial

theorem resumeProcess_stays (count : Nat) : Stays scope (resumeProcess count) fun _ => True := by
  apply (receiverOf_stays count).bind
  intro process seen
  refine getHeap_stays.bind fun _ _ => ?_
  exact .ite (fun _ => .pure trivial) fun _ => (resume_stays seen).bind fun _ _ => .pure trivial

theorem suspendProcess_stays (count : Nat) :
    Stays scope (suspendProcess count) fun _ => True := by
  apply (receiverOf_stays count).bind
  intro process _
  refine activeProcess_stays.bind fun _ _ => ?_
  refine .ite (fun _ => .pure trivial) fun _ => getNil_stays.bind fun nil none => ?_
  apply (replace_stays _ none).bind
  intro _ _
  refine wakeHighestPriority_stays.bind fun next woken => ?_
  exact (transferTo_stays woken).bind fun _ _ => .pure trivial

theorem yieldActive_stays : Stays scope yieldActive fun _ => True :=
  yieldProcess_stays.bind fun _ _ => .pure trivial

theorem relinquish_stays (count : Nat) : Stays scope (relinquish count) fun _ => True := by
  refine .ite (fun _ => .pure trivial) fun _ => (argument_stays count 0).bind fun time _ => ?_
  cases time.nat? with
  | none => exact .pure trivial
  | some _ =>
    exact .bind (modify_stays fun _ within => ⟨within.heap, within.registers⟩) fun _ _ =>
      succeedSelf_stays count

end Reply

end Smalltalk

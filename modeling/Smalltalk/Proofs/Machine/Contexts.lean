import Smalltalk.Machine.Interrupts
import Smalltalk.Proofs.Machine.Stays

namespace Smalltalk

/-! Moving between contexts and processes stays within a scope. A return also
recycles contexts, which a scope has to allow. -/

namespace Run

variable {scope : Scope}

theorem forM_stays {α : Type} {body : α → Run Unit} {items : List α}
    (each : ∀ item ∈ items, Stays scope (body item) fun _ => True) :
    Stays scope (items.forM body) fun _ => True := by
  induction items with
  | nil => exact .pure trivial
  | cons item items induction =>
    refine .bind (each item (List.mem_cons_self ..)) fun _ _ => ?_
    exact induction fun other member => each other (List.mem_cons_of_mem _ member)

/-! ## Contexts -/

theorem encodePc_stays (method : Value) (pc : Nat) :
    Stays scope (encodePc method pc) scope.Sees :=
  (methodHeader_stays method).bind fun _ _ => .pure (scope.sees_ofWrapped _)

theorem decodePc_stays (method : Value) (encoded : Int) :
    Stays scope (decodePc method encoded) fun _ => True :=
  (methodHeader_stays method).bind fun _ _ =>
    .ite (fun _ => .failThen) fun _ => .pure trivial

theorem homeOf_stays {context : Value} (seen : scope.Sees context) :
    Stays scope (homeOf context) scope.Sees :=
  (fetch_stays seen _).bind fun _ _ =>
    .ite (fun _ => fetch_stays seen _) fun _ => .pure seen

theorem loadContext_stays {context : Value} (seen : scope.Sees context) :
    Stays scope (loadContext context) fun _ => True := by
  apply (homeOf_stays seen).bind
  intro homeContext home
  apply (fetch_stays home _).bind
  intro method running
  apply (fetch_stays home _).bind
  intro receiver received
  apply (fetchInt_stays context _).bind
  intro encodedPc _
  apply (fetchInt_stays context _).bind
  intro depth _
  apply (decodePc_stays method encodedPc).bind
  intro pc _
  exact modifyRegisters_stays fun _ within =>
    { within with
      activeContext := seen
      homeContext := home
      method := running
      receiver := received }

theorem saveContext_stays : Stays scope saveContext fun _ => True := by
  apply getRegisters_stays.bind
  intro registers _
  apply (encodePc_stays _ _).bind
  intro pc seen
  apply (store_stays _ _ seen).bind
  intro _ _
  exact store_stays _ _ (scope.sees_ofWrapped _)

theorem activate_stays {context : Value} (seen : scope.Sees context) :
    Stays scope (activate context) fun _ => True :=
  saveContext_stays.bind fun _ _ => loadContext_stays seen

/-- What lies between two contexts is visible when its end is. -/
theorem contextsAbove_stays (target : Value) (budget : Nat) {context : Value}
    (seen : scope.Sees context) :
    Stays scope (contextsAbove target budget context) fun contexts =>
      ∀ other ∈ contexts, scope.Sees other := by
  induction budget generalizing context with
  | zero =>
    unfold contextsAbove
    refine .ite (fun _ => .pure (by simp)) fun _ => getNil_stays.bind fun _ _ => ?_
    exact .ite (fun _ => .failThen) fun _ => .throw
  | succ budget induction =>
    unfold contextsAbove
    refine .ite (fun _ => .pure (by simp)) fun _ => getNil_stays.bind fun _ _ => ?_
    refine .ite (fun _ => .failThen) fun _ => ?_
    apply (fetch_stays seen _).bind
    intro sender next
    refine (induction next).bind fun rest later => ?_
    refine .pure fun other member => ?_
    rcases List.mem_cons.mp member with rfl | inRest
    · exact seen
    · exact later other inRest

/-! ## Returning -/

theorem recycle_stays (recycling : scope.recycling) {context : Value}
    (seen : scope.Sees context) : Stays scope (recycle context) fun _ => True := by
  apply get_stays.bind
  intro machine _
  cases seen with
  | small n => exact .pure trivial
  | @object slot visible =>
    have recyclable : scope.Recyclable (.object slot) := by
      intro _ same
      cases same
      exact .inr ⟨recycling, visible⟩
    cases machine.heap.get? (.object slot) with
    | none => exact .pure trivial
    | some object =>
      refine .ite (fun _ => .pure trivial) fun _ => ?_
      refine .ite (fun _ => ?_) fun _ => .ite (fun _ => ?_) ?_
      · refine modifyRegisters_stays fun registers within =>
          { within with free := fun value member => ?_, free_nodup := .inl recycling }
        rcases List.mem_cons.mp member with rfl | old
        · exact recyclable
        · exact within.free value old
      · refine modifyRegisters_stays fun registers within =>
          { within with free := fun value member => ?_, free_nodup := .inl recycling }
        rcases List.mem_append.mp member with small | large
        · exact within.free value (List.mem_append_left _ small)
        · rcases List.mem_cons.mp large with rfl | old
          · exact recyclable
          · exact within.free value (List.mem_append_right _ old)
      · exact fun _ => .pure trivial

theorem retire_stays (recycling : scope.recycling) {context : Value}
    (seen : scope.Sees context) : Stays scope (retire context) fun _ => True := by
  apply getNil_stays.bind
  intro nil none
  apply (fetch_stays seen _).discard.bind
  intro _ _
  apply (store_stays _ _ none).bind
  intro _ _
  refine (store_stays _ _ none).bind fun _ _ => ?_
  apply getRegisters_stays.bind
  intro registers _
  refine .ite (fun _ => ?_) fun _ => .pure trivial
  refine .bind (modifyRegisters_stays fun _ within => { within with }) fun _ _ => ?_
  exact recycle_stays recycling seen

theorem returnTo_stays (recycling : scope.recycling) {value target : Value}
    (answer : scope.Sees value) (seen : scope.Sees target) :
    Stays scope (returnTo value target) fun _ => True := by
  apply getNil_stays.bind
  intro nil _
  refine .ite (fun _ => .failThen) fun _ => ?_
  apply (fetch_stays seen _).bind
  intro _ _
  refine .ite (fun _ => .failThen) fun _ => ?_
  apply getHeap_stays.bind
  intro _ _
  refine getRegisters_stays.bind fun registers within => ?_
  apply (contextsAbove_stays target _ within.activeContext).bind
  intro left above
  apply (forM_stays fun context member => retire_stays recycling (above context member)).bind
  exact fun _ _ => (loadContext_stays seen).bind fun _ _ => push_stays answer

/-! ## Processes -/

theorem scheduler_stays : Stays scope scheduler scope.Sees :=
  (specialObject_stays _).bind fun _ seen => fetch_stays seen _

theorem activeProcess_stays : Stays scope activeProcess scope.Sees :=
  scheduler_stays.bind fun _ seen => fetch_stays seen _

theorem priorityOf_stays (process : Value) : Stays scope (priorityOf process) fun _ => True :=
  (fetchInt_stays process _).bind fun _ _ => .pure trivial

theorem isEmptyList_stays {list : Value} (seen : scope.Sees list) :
    Stays scope (isEmptyList list) fun _ => True :=
  (fetch_stays seen _).bind fun _ _ => getNil_stays.bind fun _ _ => .pure trivial

theorem addLast_stays {link list : Value} (linked : scope.Sees link) (seen : scope.Sees list) :
    Stays scope (addLast link list) fun _ => True := by
  have finish : Stays scope (do
      store list ListField.lastLink link
      store link ProcessField.myList list) fun _ => True :=
    (store_stays _ _ linked).bind fun _ _ => store_stays _ _ seen
  apply (isEmptyList_stays seen).bind
  intro empty _
  refine .ite (fun _ => ?_) fun _ => ?_
  · exact (store_stays _ _ linked).bind fun _ _ => finish
  · apply (fetch_stays seen _).bind
    intro last _
    exact (store_stays _ _ linked).bind fun _ _ => finish

theorem removeFirst_stays {list : Value} (seen : scope.Sees list) :
    Stays scope (removeFirst list) scope.Sees := by
  apply getNil_stays.bind
  intro nil none
  apply (fetch_stays seen _).bind
  intro first head
  refine (fetch_stays seen _).bind fun last _ => ?_
  have finish : Stays scope (do
      store first ProcessField.nextLink nil
      store first ProcessField.myList nil
      return first) scope.Sees :=
    (store_stays _ _ none).bind fun _ _ => (store_stays _ _ none).bind fun _ _ => .pure head
  refine .ite (fun _ => ?_) fun _ => ?_
  · exact (store_stays _ _ none).bind fun _ _ => (store_stays _ _ none).bind fun _ _ => finish
  · exact (fetch_stays head _).bind fun next later =>
      (store_stays _ _ later).bind fun _ _ => finish

theorem readyLists_stays : Stays scope readyLists scope.Sees :=
  scheduler_stays.bind fun _ seen => fetch_stays seen _

theorem readyList_stays (priority : Nat) : Stays scope (readyList priority) scope.Sees :=
  readyLists_stays.bind fun _ seen => fetch_stays seen _

theorem sleep_stays {process : Value} (seen : scope.Sees process) :
    Stays scope (sleep process) fun _ => True :=
  (priorityOf_stays process).bind fun _ _ =>
    (readyList_stays _).bind fun _ list => addLast_stays seen list

theorem transferTo_stays {process : Value} (seen : scope.Sees process) :
    Stays scope (transferTo process) fun _ => True := by
  apply getNil_stays.bind
  intro nil none
  refine scheduler_stays.bind fun scheduler known => ?_
  apply (fetch_stays known _).bind
  intro suspended _
  refine saveContext_stays.bind fun _ _ => ?_
  apply getRegisters_stays.bind
  intro registers within
  apply (store_stays _ _ within.activeContext).bind
  intro _ _
  apply (store_stays _ _ seen).bind
  intro _ _
  apply (fetch_stays seen _).bind
  intro context held
  refine (store_stays _ _ none).bind fun _ _ => ?_
  apply (loadContext_stays held).bind
  intro _ _
  exact modifyRegisters_stays fun _ within => { within with }

theorem resume_stays {process : Value} (seen : scope.Sees process) :
    Stays scope (resume process) fun _ => True := by
  apply activeProcess_stays.bind
  intro active running
  apply (priorityOf_stays process).bind
  intro priority _
  apply (priorityOf_stays active).bind
  intro _ _
  refine .ite (fun _ => ?_) fun _ => sleep_stays seen
  exact (sleep_stays running).bind fun _ _ => transferTo_stays seen

theorem wakeFrom_stays {lists : Value} (seen : scope.Sees lists) (priority : Nat) :
    Stays scope (wakeFrom lists priority) scope.Sees := by
  induction priority with
  | zero => exact .fail
  | succ priority induction =>
    apply (fetch_stays seen _).bind
    intro list found
    refine (isEmptyList_stays found).bind fun _ _ => ?_
    exact .ite (fun _ => induction) fun _ => removeFirst_stays found

theorem wakeHighestPriority_stays : Stays scope wakeHighestPriority scope.Sees :=
  readyLists_stays.bind fun _ seen => getHeap_stays.bind fun _ _ => wakeFrom_stays seen _

theorem yieldProcess_stays : Stays scope yieldProcess fun _ => True := by
  apply activeProcess_stays.bind
  intro active running
  refine (priorityOf_stays active).bind fun _ _ => ?_
  apply (readyList_stays _).bind
  intro list found
  refine (isEmptyList_stays found).bind fun _ _ => ?_
  refine .ite (fun _ => .pure trivial) fun _ => (sleep_stays running).bind fun _ _ => ?_
  exact wakeHighestPriority_stays.bind fun _ woken => transferTo_stays woken

theorem signal_stays {semaphore : Value} (seen : scope.Sees semaphore) :
    Stays scope (signal semaphore) fun _ => True := by
  apply (isEmptyList_stays seen).bind
  intro _ _
  refine .ite (fun _ => ?_) fun _ => ?_
  · exact (fetchInt_stays _ _).bind fun _ _ => store_stays _ _ (scope.sees_ofInt _)
  · exact (removeFirst_stays seen).bind fun _ first => resume_stays first

theorem wait_stays {semaphore : Value} (seen : scope.Sees semaphore) :
    Stays scope (wait semaphore) fun _ => True := by
  apply (fetchInt_stays _ _).bind
  intro _ _
  refine .ite (fun _ => ?_) fun _ => ?_
  · exact store_stays _ _ (scope.sees_ofInt _)
  · apply activeProcess_stays.bind
    intro active running
    apply (addLast_stays running seen).bind
    intro _ _
    exact wakeHighestPriority_stays.bind fun _ woken => transferTo_stays woken

/-! ## Interrupts -/

theorem signalSpecial_stays (index : Nat) : Stays scope (signalSpecial index) fun _ => True := by
  apply (specialObject_stays index).bind
  intro semaphore seen
  refine getNil_stays.bind fun _ _ => ?_
  exact .ite (fun _ => signal_stays seen) fun _ => .pure trivial

theorem checkInterruptsAt_stays (now : Int) :
    Stays scope (checkInterruptsAt now) fun _ => True := by
  have wakeup : Stays scope (do
      if ← takeWakeup now then signalSpecial Special.timerSemaphore) fun _ => True := by
    have taken : Stays scope (takeWakeup now) fun _ => True :=
      modifyGet_stays fun _ within => ⟨trivial, within.heap, within.registers⟩
    exact taken.bind fun _ _ => .ite (fun _ => signalSpecial_stays _) fun _ => .pure trivial
  have ticked : Stays scope (tick now) fun _ => True :=
    modify_stays fun _ within => ⟨within.heap, within.registers⟩
  have interrupted : Stays scope takeInterrupt fun _ => True :=
    modifyGet_stays fun _ within => ⟨trivial, within.heap, within.registers⟩
  apply ticked.bind
  intro _ _
  apply interrupted.bind
  intro _ _
  refine .ite (fun _ => ?_) fun _ => wakeup
  exact (signalSpecial_stays _).bind fun _ _ => wakeup

theorem millisecondClock_stays : Stays scope millisecondClock fun _ => True :=
  get_stays.bind fun _ _ => .pure trivial

theorem checkInterrupts_stays : Stays scope checkInterrupts fun _ => True := by
  apply get_stays.bind
  intro machine _
  refine .bind (modify_stays fun _ within => ⟨within.heap, within.registers⟩) fun _ _ => ?_
  refine .ite (fun _ => ?_) fun _ => .pure trivial
  exact millisecondClock_stays.bind fun now _ => checkInterruptsAt_stays now

end Run

end Smalltalk

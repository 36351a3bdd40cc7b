import Smalltalk.Proofs.Frame.Saved
import Smalltalk.Proofs.Scheduler.Plan

namespace Smalltalk

/-! What the operations of the scheduler do to a roster. Each of them leaves a machine
on which the new roster is in force. -/

namespace Run

variable {plan : Plan} {roster : Roster} {machine : Machine} {list link process : Value}

/-! ## Reading -/

theorem isEmptyList_ensures (arranges : plan.Arranges roster machine)
    (role : plan.role list = some .queue) :
    (isEmptyList list).Ensures machine fun empty after =>
      (empty = true ↔ roster.queue list = []) ∧ after = machine := by
  refine (fetch_ensures (arranges.queues list role).first).bindExactly ?_
  refine (ensures_getNil machine).bindExactly ?_
  exact .pure ⟨by rw [decide_eq_true_iff]; exact arranges.head?_getD_eq_nil_iff role, rfl⟩

theorem scheduler_ensures (fits : plan.Fits machine) :
    scheduler.Ensures machine fun found after => found = plan.scheduler ∧ after = machine := by
  refine (ensures_specialObject machine _).bindTo fun association found => ?_
  have same := fits.association.symm.trans found
  cases same
  exact fetch_ensures fits.scheduler

theorem activeProcess_ensures (arranges : plan.Arranges roster machine) :
    activeProcess.Ensures machine fun found after => found = roster.active ∧ after = machine := by
  refine (scheduler_ensures arranges.toFits).bindExactly ?_
  exact fetch_ensures arranges.active

theorem priorityOf_ensures (fits : plan.Fits machine) (role : plan.role process = some .process) :
    (priorityOf process).Ensures machine fun priority after =>
      (plan.priority process = some priority ∧ 0 < priority) ∧ after = machine := by
  refine (ensures_fetchInt machine _ _).bindTo fun n found => ?_
  refine .pure ⟨⟨?_, by omega⟩, rfl⟩
  rw [← fits.priority process role, Heap.priority?, found]
  rfl

theorem readyLists_ensures (fits : plan.Fits machine) :
    readyLists.Ensures machine fun found after => found = plan.lists ∧ after = machine := by
  refine (scheduler_ensures fits).bindExactly ?_
  exact fetch_ensures fits.lists

theorem fetch_lists_ensures (fits : plan.Fits machine) (index : Nat) :
    (fetch plan.lists index).Ensures machine fun found after =>
      plan.ready[index]? = some found ∧ after = machine := by
  refine (ensures_fetch machine _ _).mono ?_
  intro found _ ended
  rcases ended with ⟨fetched, rfl⟩
  rcases Heap.fetch_eq_ok_iff.mp fetched with ⟨fields, readable, inside⟩
  rw [fits.ready] at readable
  cases readable
  exact ⟨by simpa using inside, rfl⟩

theorem readyList_ensures (fits : plan.Fits machine) (priority : Nat) :
    (readyList priority).Ensures machine fun found after =>
      plan.ready[priority - 1]? = some found ∧ after = machine := by
  refine (readyLists_ensures fits).bindExactly ?_
  exact fetch_lists_ensures fits _

/-! ## Adding a process to a list -/

/-- The three fields that are written when a link is added. -/
theorem join_ensures (machine : Machine) (front link list : Value) :
    (do
      store front ListField.firstLink link
      store list ListField.lastLink link
      store link ProcessField.myList list : Run Unit).Ensures machine fun _ after =>
        machine.heap.Joined after.heap front link list ∧
          after = { machine with
            heap := ((machine.heap.setField front ListField.firstLink link).setField list
              ListField.lastLink link).setField link ProcessField.myList list } := by
  refine (ensures_store machine _ _ _).bindTo fun _ joins => ?_
  refine (ensures_store _ _ _ _).bindTo fun _ last => ?_
  refine (ensures_store _ _ _ _).mono ?_
  intro _ _ ended
  rcases ended with ⟨named, rfl⟩
  refine ⟨⟨?_, ?_, named, ?_⟩, rfl⟩
  · rw [Heap.fetch_setField_other (.inr (by decide)), Heap.fetch_setField_other (.inr (by decide))]
    exact joins
  · rw [Heap.fetch_setField_other (.inr (by decide))]
    exact last
  · intro other place first second third
    rw [Heap.fetch_setField_other third, Heap.fetch_setField_other second,
      Heap.fetch_setField_other first]

/-- A process that waits nowhere comes to the end of a list. -/
theorem arranges_of_joined (arranges : plan.Arranges roster machine)
    (role : plan.role list = some .queue) (linked : plan.role link = some .process)
    (waits : ¬ plan.Waits roster link) {after : Machine}
    (registers : after.registers = machine.registers) (fits : plan.Fits after)
    (joined : machine.heap.Joined after.heap (Heap.joint list (roster.queue list)) link list) :
    plan.Arranges (roster.enqueue list link) after := by
  have front {other : Value} (away : other ≠ list) (outside : other ∉ roster.queue list) :
      Heap.joint list (roster.queue list) ≠ other := by
    rcases Heap.joint_eq list (roster.queue list) with ⟨same, -⟩ | member
    · rw [same]
      exact away.symm
    · exact fun same => outside (same ▸ member)
  refine
    { toFits := fits
      toDistributes := arranges.toDistributes.enqueue role linked waits
      active := ?_
      active_role := arranges.active_role
      queues := ?_
      unlinked := ?_ }
  · have kept := joined.others plan.scheduler SchedulerField.activeProcess
      (.inr (by decide)) (.inl (plan.ne_of_role role plan.scheduler_role (by decide)))
      (.inr (by decide))
    exact kept.trans arranges.active
  · intro other isQueue
    rw [registers]
    by_cases same : other = list
    · subst same
      rw [roster.queue_enqueue_same]
      exact (arranges.queues other role).append (arranges.nodup other role) joined
        (arranges.not_mem_queue role role) (fun member => waits ⟨other, role, member⟩)
        (plan.ne_of_role linked role (by decide)) (arranges.unlinked link linked waits)
    · rw [roster.queue_enqueue_other link same]
      have ends (place : Nat) : after.heap.fetch other place = machine.heap.fetch other place :=
        joined.others other place (.inl (front same (arranges.not_mem_queue role isQueue)))
          (.inl (Ne.symm same)) (.inl (plan.ne_of_role linked isQueue (by decide)))
      have links (member : Value) (inside : member ∈ roster.queue other) (place : Nat) :
          after.heap.fetch member place = machine.heap.fetch member place := by
        have isProcess := arranges.processes other member isQueue inside
        refine joined.others member place (.inl (front ?_ fun here => ?_)) (.inl ?_) (.inl ?_)
        · exact plan.ne_of_role isProcess role (by decide)
        · exact same (arranges.apart other list member isQueue role inside here)
        · exact plan.ne_of_role role isProcess (by decide)
        · exact fun equal => waits ⟨other, isQueue, equal ▸ inside⟩
      exact (arranges.queues other isQueue).frame (ends _) (ends _)
        (fun member inside => links member inside _) fun member inside => links member inside _
  · intro other isProcess late
    rw [plan.waits_enqueue_iff roster role, not_or] at late
    rw [registers]
    refine (joined.others other ProcessField.nextLink (.inl (front ?_ ?_)) (.inr (by decide))
      (.inr (by decide))).trans (arranges.unlinked other isProcess late.1)
    · exact plan.ne_of_role isProcess role (by decide)
    · exact fun inside => late.1 ⟨list, role, inside⟩

/-- Whatever is added to a list is joined to its end. -/
theorem addLast_joins (arranges : plan.Arranges roster machine)
    (role : plan.role list = some .queue) (link : Value) :
    let front := Heap.joint list (roster.queue list)
    (addLast link list).Ensures machine fun _ after =>
      machine.heap.Joined after.heap front link list ∧
        after = { machine with
          heap := ((machine.heap.setField front ListField.firstLink link).setField list
            ListField.lastLink link).setField link ProcessField.myList list } := by
  refine (isEmptyList_ensures arranges role).bindTo fun empty isEmpty => ?_
  dsimp only
  split
  · rename_i none
    rw [show Heap.joint list (roster.queue list) = list by rw [isEmpty.mp none]; rfl]
    exact join_ensures machine list link list
  · rename_i some
    refine (fetch_ensures (arranges.queues list role).last).bindExactly ?_
    cases ended : (roster.queue list).getLast? with
    | none => exact absurd (isEmpty.mpr (List.getLast?_eq_none_iff.mp ended)) some
    | some last =>
      rw [show Heap.joint list (roster.queue list) = last by rw [Heap.joint, ended]; rfl]
      exact join_ensures machine last link list

theorem addLast_ensures (arranges : plan.Arranges roster machine)
    (role : plan.role list = some .queue) (linked : plan.role link = some .process)
    (waits : ¬ plan.Waits roster link) :
    (addLast link list).Ensures machine fun _ after =>
      plan.Arranges (roster.enqueue list link) after := by
  have first : plan.Writable (Heap.joint list (roster.queue list)) ListField.firstLink link := by
    rcases Heap.joint_eq list (roster.queue list) with ⟨same, -⟩ | member
    · rw [same]
      exact plan.writable_of_queue role _ _
    · exact plan.writable_of_process (arranges.processes list _ role member) (by decide)
        (by decide) _
  have named : plan.Writable link ProcessField.myList list :=
    plan.writable_of_process linked (by decide) (by decide) list
  refine (addLast_joins arranges role link).mono ?_
  intro _ after outcome
  rcases outcome with ⟨joined, same⟩
  have fits := ((arranges.toFits.setField first).setField
    (plan.writable_of_queue role ListField.lastLink link)).setField named
  exact arranges_of_joined arranges role linked waits (by rw [same]) (same ▸ fits) joined

/-! ## Removing a process from a list -/

/-- The process that waits longest leaves a list. -/
theorem arranges_of_parted (arranges : plan.Arranges roster machine)
    (role : plan.role list = some .queue) {rest : List Value}
    (members : roster.queue list = process :: rest) {after : Machine}
    (registers : after.registers = machine.registers) (fits : plan.Fits after)
    (parted : machine.heap.Parted after.heap machine.registers.specials.nil list process
      (rest.head?.getD machine.registers.specials.nil)
      (rest.getLast?.getD machine.registers.specials.nil)) :
    plan.Arranges (roster.dequeue list) after := by
  have member : process ∈ roster.queue list := members ▸ List.mem_cons_self ..
  have isProcess := arranges.processes list process role member
  have kept {other : Value} {place : Nat} (away : other ≠ list) (different : other ≠ process) :
      after.heap.fetch other place = machine.heap.fetch other place :=
    parted.others other place away.symm (.inl different.symm)
  refine
    { toFits := fits
      toDistributes := arranges.toDistributes.dequeue list
      active := ?_
      active_role := arranges.active_role
      queues := ?_
      unlinked := ?_ }
  · refine (kept ?_ ?_).trans arranges.active
    · exact plan.ne_of_role plan.scheduler_role role (by decide)
    · exact plan.ne_of_role plan.scheduler_role isProcess (by decide)
  · intro other isQueue
    rw [registers]
    by_cases same : other = list
    · subst same
      have queues := arranges.queues other role
      have nodup := arranges.nodup other role
      have outside := arranges.not_mem_queue role role
      rw [members] at queues nodup outside
      rw [roster.queue_dequeue_same, members, List.tail_cons]
      exact queues.tail nodup (fun inside => outside (List.mem_cons_of_mem _ inside)) parted
    · rw [roster.queue_dequeue_other same]
      have ends (place : Nat) : after.heap.fetch other place = machine.heap.fetch other place :=
        kept same (plan.ne_of_role isQueue isProcess (by decide))
      have links (link : Value) (inside : link ∈ roster.queue other) (place : Nat) :
          after.heap.fetch link place = machine.heap.fetch link place := by
        refine kept ?_ fun equal => ?_
        · exact plan.ne_of_role (arranges.processes other link isQueue inside) role (by decide)
        · exact same (arranges.apart other list process isQueue role (equal ▸ inside) member)
      exact (arranges.queues other isQueue).frame (ends _) (ends _)
        (fun link inside => links link inside _) fun link inside => links link inside _
  · intro other serves late
    rw [arranges.waits_dequeue_iff role members, not_and_or, not_not] at late
    rw [registers]
    by_cases same : other = process
    · rw [same]
      exact parted.unlinked
    · refine (kept ?_ same).trans (arranges.unlinked other serves (late.resolve_right same))
      exact plan.ne_of_role serves role (by decide)

/-- The two fields of a link that has left its list. -/
theorem unlink_ensures (machine : Machine) (nil first : Value) :
    (do
      store first ProcessField.nextLink nil
      store first ProcessField.myList nil
      return first : Run Value).Ensures machine fun result after =>
        result = first ∧ after.heap.fetch first ProcessField.nextLink = .ok nil ∧
          after = { machine with
            heap := (machine.heap.setField first ProcessField.nextLink nil).setField first
              ProcessField.myList nil } := by
  refine (ensures_store machine _ _ _).bindTo fun _ unlinked => ?_
  refine (ensures_store _ _ _ _).bindTo fun _ _ => ?_
  refine .pure ⟨rfl, ?_, rfl⟩
  exact (Heap.fetch_setField_other (.inr (by decide))).trans unlinked

/-- Once a list has its new ends, its first process can be taken out of it, whatever
was written into the list itself. -/
theorem unlinkFirst_ensures (arranges : plan.Arranges roster machine)
    (role : plan.role list = some .queue) {rest : List Value}
    (members : roster.queue list = process :: rest) {head : Machine}
    (registers : head.registers = machine.registers) (fits : plan.Fits head)
    (ends : machine.heap.Ends head.heap list (rest.head?.getD machine.registers.specials.nil)
      (rest.getLast?.getD machine.registers.specials.nil)) :
    (do
      store process ProcessField.nextLink machine.registers.specials.nil
      store process ProcessField.myList machine.registers.specials.nil
      return process : Run Value).Ensures head fun result after =>
        result = process ∧ plan.Arranges (roster.dequeue list) after := by
  have isProcess : plan.role process = some .process :=
    arranges.processes list process role (members ▸ List.mem_cons_self ..)
  have away : process ≠ list := plan.ne_of_role isProcess role (by decide)
  have writable {index : Nat} (priority : index ≠ ProcessField.priority)
      (suspended : index ≠ ProcessField.suspendedContext) :
      plan.Writable process index machine.registers.specials.nil :=
    plan.writable_of_process isProcess priority suspended _
  refine (unlink_ensures head _ process).mono ?_
  intro result after ended
  rcases ended with ⟨rfl, unlinked, same⟩
  have kept {other : Value} {place : Nat}
      (apart : result ≠ other ∨ ProcessField.nextLink ≠ place ∧ ProcessField.myList ≠ place) :
      after.heap.fetch other place = head.heap.fetch other place := by
    rw [same, Heap.fetch_setField_other (apart.imp id And.right),
      Heap.fetch_setField_other (apart.imp id And.left)]
  have fitting : plan.Fits after := by
    rw [same]
    exact (fits.setField (writable (by decide) (by decide))).setField
      (writable (by decide) (by decide))
  refine ⟨rfl, arranges_of_parted arranges role members (by rw [same, ← registers]) fitting ?_⟩
  exact
    { first := (kept (.inl away)).trans ends.first
      last := (kept (.inl away)).trans ends.last
      unlinked
      others := fun other place different apart =>
        (kept apart).trans (ends.others other place different) }

theorem removeFirst_ensures (arranges : plan.Arranges roster machine)
    (role : plan.role list = some .queue) {rest : List Value}
    (members : roster.queue list = process :: rest) :
    (removeFirst list).Ensures machine fun result after =>
      result = process ∧ plan.Arranges (roster.dequeue list) after := by
  have queues := arranges.queues list role
  have nodup := arranges.nodup list role
  rw [members] at queues nodup
  refine (ensures_getNil machine).bindExactly ?_
  refine (fetch_ensures queues.first).bindExactly ?_
  refine (fetch_ensures queues.last).bindExactly ?_
  have single := Heap.first_eq_last_iff machine.registers.specials.nil nodup
  have writable {index : Nat} {value : Value} : plan.Writable list index value :=
    plan.writable_of_queue role _ _
  dsimp only
  split
  · rename_i only
    have none : rest = [] := single.mp only
    subst none
    refine (ensures_store machine _ _ _).bindTo fun _ first => ?_
    refine (ensures_store _ _ _ _).bindTo fun _ last => ?_
    refine unlinkFirst_ensures arranges role members rfl
      ((arranges.toFits.setField writable).setField writable) ⟨?_, ?_, ?_⟩
    · exact (Heap.fetch_setField_other (.inr (by decide))).trans first
    · exact last
    · intro other place different
      rw [Heap.fetch_setField_other (.inl different), Heap.fetch_setField_other (.inl different)]
  · rename_i several
    refine (fetch_ensures queues.linked.1).bindExactly ?_
    refine (ensures_store machine _ _ _).bindTo fun _ first => ?_
    refine unlinkFirst_ensures arranges role members rfl (arranges.toFits.setField writable)
      ⟨?_, ?_, ?_⟩
    · exact first
    · refine (Heap.fetch_setField_other (.inr (by decide))).trans (queues.last.trans ?_)
      cases rest with
      | nil => exact absurd (single.mpr rfl) several
      | cons second rest => rw [List.getLast?_cons_cons]
    · exact fun other place different => Heap.fetch_setField_other (.inl different)

/-! ## Finding the process that runs next -/

theorem wakeFrom_ensures (arranges : plan.Arranges roster machine) (priority : Nat)
    (above : ∀ higher other, priority ≤ higher → plan.ready[higher]? = some other →
      roster.queue other = []) :
    (wakeFrom plan.lists priority).Ensures machine fun process after =>
      ∃ index list, plan.IsNext roster index list process ∧
        plan.Arranges (roster.dequeue list) after := by
  induction priority with
  | zero => exact .fail
  | succ priority induction =>
    refine (fetch_lists_ensures arranges.toFits priority).bindTo fun list ready => ?_
    have role := plan.ready_role list (List.mem_of_getElem? ready)
    refine (isEmptyList_ensures arranges role).bindTo fun empty isEmpty => ?_
    split
    · rename_i none
      apply induction
      intro higher other bound found
      rcases Nat.eq_or_lt_of_le bound with rfl | further
      · rw [ready] at found
        cases found
        exact isEmpty.mp none
      · exact above higher other further found
    · rename_i some
      cases members : roster.queue list with
      | nil => exact absurd (isEmpty.mpr members) some
      | cons process rest =>
        refine (removeFirst_ensures arranges role members).mono ?_
        intro result after ended
        rcases ended with ⟨rfl, arranged⟩
        exact ⟨priority, list, ⟨ready, ⟨rest, members⟩, above⟩, arranged⟩

theorem wakeHighestPriority_ensures (arranges : plan.Arranges roster machine) :
    wakeHighestPriority.Ensures machine fun process after =>
      ∃ index list, plan.IsNext roster index list process ∧
        plan.Arranges (roster.dequeue list) after := by
  refine (readyLists_ensures arranges.toFits).bindExactly ?_
  refine (ensures_getHeap machine).bindExactly ?_
  have count : machine.heap.pointerCount plan.lists = plan.ready.length := by
    rcases Heap.pointers_eq_ok_iff.mp arranges.ready with ⟨owner, found, pointers⟩
    simp only [HeapObject.pointers?] at pointers
    simp [Heap.pointerCount, found, HeapObject.pointerCount, Body.pointerCount, pointers]
  apply wakeFrom_ensures arranges _
  intro higher other bound found
  rw [count, ← List.getElem?_eq_none_iff, found] at bound
  cases bound

/-! ## Switching -/

theorem sleep_ensures (arranges : plan.Arranges roster machine)
    (role : plan.role process = some .process) (waits : ¬ plan.Waits roster process) :
    (sleep process).Ensures machine fun _ after =>
      ∃ index list, plan.priority process = some (index + 1) ∧ plan.ready[index]? = some list ∧
        plan.Arranges (roster.enqueue list process) after := by
  refine (priorityOf_ensures arranges.toFits role).bindTo fun priority known => ?_
  rcases known with ⟨given, positive⟩
  refine (readyList_ensures arranges.toFits priority).bindTo fun list ready => ?_
  refine (addLast_ensures arranges (plan.ready_role list (List.mem_of_getElem? ready)) role
    waits).mono fun _ after arranged => ⟨priority - 1, list, ?_, ready, arranged⟩
  rw [given, Nat.sub_add_cancel positive]

theorem saveContext_ensures (arranges : plan.Arranges roster machine) :
    saveContext.Ensures machine fun _ after =>
      plan.Arranges roster after ∧ after.registers = machine.registers := by
  refine saveContext_writes.mono ?_
  rintro _ _ ⟨_, _, -, -, rfl, -, -⟩
  exact ⟨(arranges.setField_other _ arranges.context).setField_other _ arranges.context, rfl⟩

theorem loadContext_ensures (arranges : plan.Arranges roster machine) {context : Value}
    (role : plan.role context = none) :
    (loadContext context).Ensures machine fun _ after => plan.Arranges roster after := by
  refine (loadContext_loads context).mono ?_
  rintro _ _ ⟨_, _, _, _, _, _, -, -, -, -, -, -, rfl⟩
  exact arranges.withRegisters rfl role

theorem transferTo_ensures (arranges : plan.Arranges roster machine)
    (role : plan.role process = some .process) :
    (transferTo process).Ensures machine fun _ after =>
      plan.Arranges (roster.activate process) after := by
  refine (ensures_getNil machine).bindExactly ?_
  refine (scheduler_ensures arranges.toFits).bindExactly ?_
  refine (fetch_ensures arranges.active).bindExactly ?_
  refine (saveContext_ensures arranges).bind fun _ saved ⟨stored, registers⟩ => ?_
  refine (ensures_getRegisters saved).bindExactly ?_
  refine (ensures_store saved _ _ _).bindTo fun _ _ => ?_
  have suspended := stored.setSuspended arranges.active_role stored.context
  refine (ensures_store _ _ _ _).bindTo fun _ stored => ?_
  have switched := suspended.setActive role stored
  refine (ensures_fetch _ _ _).bindTo fun context fetched => ?_
  have outside : plan.role context = none := switched.suspended process context role fetched
  refine (ensures_store _ _ _ _).bindTo fun _ _ => ?_
  have resumed := switched.setSuspended role arranges.nil
  refine (loadContext_ensures resumed outside).bind fun _ loaded arranged => ?_
  refine (ensures_modifyRegisters loaded _).mono ?_
  intro _ _ equal
  rcases equal with rfl
  exact arranged.withRegisters rfl arranged.context

end Run

end Smalltalk

import Smalltalk.Machine.Scheduling
import Smalltalk.Proofs.Frame.Block
import Smalltalk.Proofs.Machine.References

namespace Smalltalk

/-! A process that hands the processor over and gets it back goes on where it was, and so does
the other one. Saving what was just loaded changes nothing, so that in the end only the first
process and its context are written. -/

theorem Value.ofWrapped_of_int? {value : Value} {n : Int} (known : value.int? = some n) :
    Value.ofWrapped n = value := by
  cases value with
  | object slot => cases known
  | small small =>
    cases known
    rw [ofWrapped_eq_ofInt small.lower small.upper, ofInt, SmallInt.ofInt?_val]
    rfl

namespace Heap

variable {heap : Heap} {object value : Value} {index : Nat}

/-- What is written to the links of another object, or to its counters, does not concern a
context that waits. -/
theorem Waits.setField {context home method receiver : Value} {pc sp : Nat}
    (waits : heap.Waits context home method receiver pc sp) (apart : object ≠ context)
    (inside : 0 < index) (early : index < ContextField.method) (value : Value) :
    (heap.setField object index value).Waits context home method receiver pc sp := by
  simp only [ContextField.method] at early
  have kept {other : Value} {place : Nat} (later : ContextField.method ≤ place) :
      (heap.setField object index value).fetch other place = heap.fetch other place := by
    simp only [ContextField.method] at later
    exact fetch_setField_other (.inr (by omega))
  have counter (place : Nat) :
      (heap.setField object index value).fetchInt context place = heap.fetchInt context place := by
    rw [fetchInt, fetchInt, fetch_setField_other (.inl apart)]
  rcases waits.next with ⟨header, isMethod, next⟩
  exact
    { homeOf := waits.homeOf.transfer (kept (le_refl _)) (kept (by decide))
      runs := (kept (le_refl _)).trans waits.runs
      receives := (kept (by decide)).trans waits.receives
      next := ⟨header, (methodHeader?_setField inside).trans isMethod, (counter _).trans next⟩
      depth := (counter _).trans waits.depth }

theorem Waits.withCounters {context home method receiver other : Value} {pc sp : Nat}
    (waits : heap.Waits context home method receiver pc sp) (apart : other ≠ context)
    (counter depth : Value) :
    (heap.withCounters other counter depth).Waits context home method receiver pc sp :=
  (waits.setField apart (by decide) (by decide) counter).setField apart (by decide) (by decide)
    depth

/-- A process is suspended in a context, and another one runs in its place. -/
def handOver (heap : Heap) (scheduler process context next nil : Value) : Heap :=
  ((heap.setField process ProcessField.suspendedContext context).setField scheduler
    SchedulerField.activeProcess next).setField next ProcessField.suspendedContext nil

section

variable {scheduler process next own old nil : Value}

theorem fetch_handOver (apart : object ∉ [scheduler, process, next] ∨
      index ≠ ProcessField.suspendedContext) :
    (heap.handOver scheduler process own next nil).fetch object index
      = heap.fetch object index := by
  have away {other : Value} (member : other ∈ [scheduler, process, next]) :
      other ≠ object ∨ ProcessField.suspendedContext ≠ index :=
    apart.imp (fun outside same => outside (same ▸ member)) Ne.symm
  exact (fetch_setField_other (away (by simp))).trans
    ((fetch_setField_other (away (by simp))).trans (fetch_setField_other (away (by simp))))

theorem fetch_handOver_process
    (found : heap.fetch process ProcessField.suspendedContext = .ok old)
    (notScheduler : scheduler ≠ process) (different : next ≠ process) :
    (heap.handOver scheduler process own next nil).fetch process ProcessField.suspendedContext
      = .ok own :=
  (fetch_setField_other (.inl different)).trans
    ((fetch_setField_other (.inl notScheduler)).trans (fetch_setField_over found own))

theorem fetch_handOver_scheduler
    (found : heap.fetch scheduler SchedulerField.activeProcess = .ok old)
    (notProcess : process ≠ scheduler) (notNext : next ≠ scheduler) :
    (heap.handOver scheduler process own next nil).fetch scheduler SchedulerField.activeProcess
      = .ok next := by
  have there : (heap.setField process ProcessField.suspendedContext own).fetch scheduler
      SchedulerField.activeProcess = .ok old :=
    (fetch_setField_other (.inl notProcess)).trans found
  exact (fetch_setField_other (.inl notNext)).trans (fetch_setField_over there next)

theorem fetch_handOver_next
    (found : heap.fetch next ProcessField.suspendedContext = .ok old)
    (notScheduler : scheduler ≠ next) (different : process ≠ next) :
    (heap.handOver scheduler process own next nil).fetch next ProcessField.suspendedContext
      = .ok nil := by
  have there : (heap.setField process ProcessField.suspendedContext own).fetch next
      ProcessField.suspendedContext = .ok old :=
    (fetch_setField_other (.inl different)).trans found
  exact fetch_setField_over ((fetch_setField_other (.inl notScheduler)).trans there) nil

end

theorem Waits.handOver {scheduler process suspended next nil : Value}
    {context home method receiver : Value} {pc sp : Nat}
    (waits : heap.Waits context home method receiver pc sp)
    (apart : context ∉ [scheduler, process, next]) :
    (heap.handOver scheduler process suspended next nil).Waits context home method receiver pc
      sp := by
  have away {other : Value} (member : other ∈ [scheduler, process, next]) : other ≠ context :=
    fun same => apart (same ▸ member)
  exact ((waits.setField (away (by simp)) (by decide) (by decide) _).setField (away (by simp))
    (by decide) (by decide) _).setField (away (by simp)) (by decide) (by decide) _

/-- The other process hands over again, and only the first one has been written. -/
theorem handOver_handOver {scheduler process next own context nil : Value}
    (active : heap.fetch scheduler SchedulerField.activeProcess = .ok process)
    (suspended : heap.fetch next ProcessField.suspendedContext = .ok context)
    (apart : [scheduler, process, next].Nodup) :
    (heap.handOver scheduler process own next nil).handOver scheduler next context process nil
      = heap.setField process ProcessField.suspendedContext nil := by
  simp only [List.nodup_cons, List.mem_cons, List.not_mem_nil, or_false, not_or,
    List.nodup_nil, not_false_eq_true, and_true] at apart
  obtain ⟨⟨notProcess, notNext⟩, different⟩ := apart
  let first := heap.setField process ProcessField.suspendedContext own
  let second := first.setField scheduler SchedulerField.activeProcess next
  have activeThere : first.fetch scheduler SchedulerField.activeProcess = .ok process :=
    (fetch_setField_other (.inl (Ne.symm notProcess))).trans active
  have suspendedThere : second.fetch next ProcessField.suspendedContext = .ok context :=
    (fetch_setField_other (.inl notNext)).trans
      ((fetch_setField_other (.inl different)).trans suspended)
  calc ((((heap.handOver scheduler process own next nil).setField next
          ProcessField.suspendedContext context).setField scheduler
          SchedulerField.activeProcess process).setField process ProcessField.suspendedContext nil)
    _ = (second.setField scheduler SchedulerField.activeProcess process).setField process
          ProcessField.suspendedContext nil := by
      rw [handOver, setField_setField next, setField_of_fetch suspendedThere]
    _ = first.setField process ProcessField.suspendedContext nil := by
      rw [setField_setField scheduler, setField_of_fetch activeThere]
    _ = heap.setField process ProcessField.suspendedContext nil := setField_setField ..

end Heap

namespace Machine

variable {machine : Machine} {association scheduler process next : Value}

/-- The scheduler is found through its association, and a process is active there. -/
structure Schedules (machine : Machine) (association scheduler process : Value) : Prop where
  named : machine.heap.fetch machine.registers.specials.array Special.schedulerAssociation
    = .ok association
  found : machine.heap.fetch association AssociationField.value = .ok scheduler
  active : machine.heap.fetch scheduler SchedulerField.activeProcess = .ok process

/-- The active process is suspended in the active context, and the machine goes on in a context
where another process waited. -/
def handOver (machine : Machine) (scheduler process next context home method receiver : Value)
    (pc sp : Nat) : Machine where
  __ := machine
  heap := machine.heap.handOver scheduler process machine.registers.activeContext next
    machine.registers.specials.nil
  registers := { machine.registers with
    pc, sp, activeContext := context, homeContext := home, method, receiver, reclaimable := 0 }

theorem Schedules.withCounters (schedules : machine.Schedules association scheduler process)
    {other : Value} (toOther : association ≠ other) (atOther : scheduler ≠ other)
    (counter depth : Value) :
    (machine.withHeap (machine.heap.withCounters other counter depth)).Schedules association
      scheduler process where
  named := (Heap.fetch_withCounters (by decide) (by decide)).trans schedules.named
  found := (Heap.fetch_congr (Heap.get?_withCounters toOther) _).trans schedules.found
  active := (Heap.fetch_congr (Heap.get?_withCounters atOther) _).trans schedules.active

theorem Schedules.handOver (schedules : machine.Schedules association scheduler process)
    (outside : association ∉ [scheduler, process, next]) (notProcess : process ≠ scheduler)
    (notNext : next ≠ scheduler) (context home method receiver : Value) (pc sp : Nat) :
    (machine.handOver scheduler process next context home method receiver pc sp).Schedules
      association scheduler next where
  named := (Heap.fetch_handOver (.inr (by decide))).trans schedules.named
  found := (Heap.fetch_handOver (.inl outside)).trans schedules.found
  active := Heap.fetch_handOver_scheduler schedules.active notProcess notNext

end Machine

namespace Run

variable {machine : Machine} {scheduler process next context home method receiver : Value}
  {pc sp : Nat}

theorem store_over {object old : Value} {index : Nat}
    (found : machine.heap.fetch object index = .ok old) (value : Value) :
    store object index value machine
      = .ok () (machine.withHeap (machine.heap.setField object index value)) := by
  rcases Heap.fetch_eq_ok_iff.mp found with ⟨fields, readable, held⟩
  rcases Array.getElem?_eq_some_iff.mp held with ⟨inside, -⟩
  have stored : machine.heap.store object index value = .ok _ :=
    Heap.store_eq_ok_iff.mpr ⟨⟨fields, readable, inside⟩, rfl⟩
  rw [store, stored]
  rfl

/-- The registers that were just loaded are saved where they come from. -/
theorem saveContext_of_waits (waits : machine.heap.Waits machine.registers.activeContext
      machine.registers.homeContext machine.registers.method machine.registers.receiver
      machine.registers.pc machine.registers.sp) :
    saveContext machine = .ok () machine := by
  rcases waits.next with ⟨header, isMethod, next⟩
  rcases Heap.fetchInt_eq_ok_iff.mp next with ⟨counter, atPc, counts⟩
  rcases Heap.fetchInt_eq_ok_iff.mp waits.depth with ⟨depth, atDepth, deep⟩
  have keeps {object value : Value} {index : Nat}
      (found : machine.heap.fetch object index = .ok value) :
      store object index value machine = .ok () machine := by
    rw [store_over found, Heap.setField_of_fetch found]
    rfl
  rw [saveContext, bind_ok getRegisters_apply, bind_ok (encodePc_ok isMethod _),
    Value.ofWrapped_of_int? counts, Value.ofWrapped_of_int? deep, bind_ok (keeps atPc),
    keeps atDepth]

theorem scheduler_ok {association : Value}
    (schedules : machine.Schedules association scheduler process) :
    Run.scheduler machine = .ok scheduler machine := by
  rw [Run.scheduler, specialObject, bind_assoc, bind_ok getRegisters_apply,
    bind_ok (fetch_ok schedules.named), fetch_ok schedules.found]

/-- Once the active context is saved, the processes are exchanged and the registers loaded. -/
theorem transferTo_ok {association old : Value} {saved : Heap}
    (saves : saveContext machine = .ok () (machine.withHeap saved))
    (schedules : machine.Schedules association scheduler process)
    (active : saved.fetch scheduler SchedulerField.activeProcess = .ok process)
    (suspendable : saved.fetch process ProcessField.suspendedContext = .ok old)
    (suspended : saved.fetch next ProcessField.suspendedContext = .ok context)
    (waits : saved.Waits context home method receiver pc sp)
    (apart : [scheduler, process, next].Nodup) (outside : context ∉ [scheduler, process, next]) :
    transferTo next machine = .ok ()
      ((machine.withHeap saved).handOver scheduler process next context home method receiver pc
        sp) := by
  simp only [List.nodup_cons, List.mem_cons, List.not_mem_nil, or_false, not_or,
    List.nodup_nil, not_false_eq_true, and_true] at apart
  obtain ⟨⟨notProcess, notNext⟩, different⟩ := apart
  let first := saved.setField process ProcessField.suspendedContext machine.registers.activeContext
  let second := first.setField scheduler SchedulerField.activeProcess next
  let third := second.setField next ProcessField.suspendedContext machine.registers.specials.nil
  have suspends : store process ProcessField.suspendedContext machine.registers.activeContext
      (machine.withHeap saved) = .ok () (machine.withHeap first) :=
    @store_over (machine.withHeap saved) _ _ _ suspendable _
  have activeThere : (machine.withHeap first).heap.fetch scheduler SchedulerField.activeProcess
      = .ok process :=
    (Heap.fetch_setField_other (.inl (Ne.symm notProcess))).trans active
  have exchanges : store scheduler SchedulerField.activeProcess next (machine.withHeap first)
      = .ok () (machine.withHeap second) := store_over activeThere _
  have suspendedThere : (machine.withHeap second).heap.fetch next ProcessField.suspendedContext
      = .ok context :=
    (Heap.fetch_setField_other (.inl notNext)).trans
      ((Heap.fetch_setField_other (.inl different)).trans suspended)
  have takes : store next ProcessField.suspendedContext machine.registers.specials.nil
      (machine.withHeap second) = .ok () (machine.withHeap third) := store_over suspendedThere _
  have waitsThere : (machine.withHeap third).heap.Waits context home method receiver pc sp :=
    waits.handOver outside
  rw [transferTo, bind_ok getNil_apply, bind_ok (scheduler_ok schedules),
    bind_ok (fetch_ok schedules.active), bind_ok saves, bind_ok getRegisters_apply]
  refine (bind_ok suspends).trans ((bind_ok exchanges).trans ((bind_ok
    (fetch_ok suspendedThere)).trans ((bind_ok takes).trans ?_)))
  exact bind_ok (loadContext_of_waits waitsThere)

end Run

namespace Machine

variable {machine switched returned : Machine}
  {association scheduler process next old context home method receiver : Value} {pc sp : Nat}

/-- A process hands the processor over to another one that waits in a context, and gets it
back. -/
structure TakesTurns (machine switched returned : Machine)
    (process next context home method receiver : Value) (pc sp : Nat) : Prop where
  left : Run.transferTo next machine = .ok () switched
  loaded : switched.registers = { machine.registers with
    pc, sp, activeContext := context, homeContext := home, method, receiver, reclaimable := 0 }
  suspended : switched.heap.fetch process ProcessField.suspendedContext
    = .ok machine.registers.activeContext
  waits : switched.heap.Waits machine.registers.activeContext machine.registers.homeContext
    machine.registers.method machine.registers.receiver machine.registers.pc machine.registers.sp
  back : Run.transferTo process switched = .ok () returned
  restored : returned.registers = { machine.registers with reclaimable := 0 }
  suspendedAgain : returned.heap.fetch next ProcessField.suspendedContext = .ok context
  waitsAgain : returned.heap.Waits context home method receiver pc sp
  frames : ∀ object place, ContextField.frame ≤ place →
    returned.heap.fetch object place = machine.heap.fetch object place
  untouched : ∃ counter depth, returned = { machine with
    heap := (machine.heap.withCounters machine.registers.activeContext counter depth).setField
      process ProcessField.suspendedContext machine.registers.specials.nil
    registers.reclaimable := 0 }

/-- On the way back from a context that was just loaded nothing is saved that is not there
already. -/
theorem transferTo_back (schedules : machine.Schedules association scheduler process)
    (suspendable : machine.heap.fetch process ProcessField.suspendedContext = .ok old)
    (suspended : machine.heap.fetch next ProcessField.suspendedContext = .ok context)
    (kept : machine.heap.Waits machine.registers.activeContext machine.registers.homeContext
      machine.registers.method machine.registers.receiver machine.registers.pc
      machine.registers.sp)
    (waits : machine.heap.Waits context home method receiver pc sp)
    (apart : [association, scheduler, process, next, machine.registers.activeContext,
      context].Nodup) :
    Run.transferTo process
        (machine.handOver scheduler process next context home method receiver pc sp)
      = .ok () { machine with
          heap := machine.heap.setField process ProcessField.suspendedContext
            machine.registers.specials.nil
          registers.reclaimable := 0 } := by
  simp only [List.nodup_cons, List.mem_cons, List.not_mem_nil, or_false, not_or,
    List.nodup_nil, not_false_eq_true, and_true] at apart
  obtain ⟨⟨toScheduler, toProcess, toNext, -⟩, ⟨atProcess, atNext, atActive, atContext⟩,
    ⟨different, processActive, processContext⟩, ⟨nextActive, nextContext⟩, -⟩ := apart
  have schedulesThere := schedules.handOver (by simp [toScheduler, toProcess, toNext])
    (Ne.symm atProcess) (Ne.symm atNext) context home method receiver pc sp
  have activeOutside : machine.registers.activeContext ∉ [scheduler, process, next] := by
    simp [Ne.symm atActive, Ne.symm processActive, Ne.symm nextActive]
  have outside : context ∉ [scheduler, process, next] := by
    simp [Ne.symm atContext, Ne.symm processContext, Ne.symm nextContext]
  have back := Run.transferTo_ok (Run.saveContext_of_waits (waits.handOver outside))
    schedulesThere schedulesThere.active (Heap.fetch_handOver_next suspended atNext different)
    (Heap.fetch_handOver_process suspendable atProcess (Ne.symm different))
    (kept.handOver activeOutside) (by simp [atNext, atProcess, Ne.symm different])
    (by simp [Ne.symm atActive, Ne.symm processActive, Ne.symm nextActive])
  refine back.trans (congrArg
    (fun heap => EStateM.Result.ok () { machine with heap, registers.reclaimable := 0 }) ?_)
  exact Heap.handOver_handOver schedules.active suspended (by simp [atProcess, atNext, different])

/-- As long as the scheduler, the two processes and their contexts are different objects, a
process that comes back goes on where it was, and the other one waits where it waited. -/
theorem transfer_there_and_back (agrees : machine.Agrees)
    (schedules : machine.Schedules association scheduler process)
    (suspendable : machine.heap.fetch process ProcessField.suspendedContext = .ok old)
    (suspended : machine.heap.fetch next ProcessField.suspendedContext = .ok context)
    (waits : machine.heap.Waits context home method receiver pc sp)
    (apart : [association, scheduler, process, next, machine.registers.activeContext,
      context].Nodup) :
    ∃ switched returned, machine.TakesTurns switched returned process next context home method
      receiver pc sp := by
  have separate := apart
  simp only [List.nodup_cons, List.mem_cons, List.not_mem_nil, or_false, not_or,
    List.nodup_nil, not_false_eq_true, and_true] at separate
  obtain ⟨⟨-, -, -, toActive, -⟩, ⟨atProcess, atNext, atActive, atContext⟩,
    ⟨different, processActive, processContext⟩, ⟨nextActive, nextContext⟩, activeContext⟩ :=
    separate
  rcases Reply.saveContext_ends agrees with ⟨⟨⟩, after, saves⟩
  rcases Run.saveContext_waits agrees _ _ saves with ⟨counter, depth, rfl, kept⟩
  let saved := machine.heap.withCounters machine.registers.activeContext counter depth
  have link {object : Value} (away : object ≠ machine.registers.activeContext) (index : Nat) :
      saved.fetch object index = machine.heap.fetch object index :=
    Heap.fetch_congr (Heap.get?_withCounters away) index
  have keeps : (machine.withHeap saved).Schedules association scheduler process :=
    schedules.withCounters toActive atActive counter depth
  have suspendableSaved : saved.fetch process ProcessField.suspendedContext = .ok old :=
    (link processActive _).trans suspendable
  have resting : saved.fetch next ProcessField.suspendedContext = .ok context :=
    (link nextActive _).trans suspended
  have waitsSaved : saved.Waits context home method receiver pc sp :=
    waits.withCounters activeContext counter depth
  have outside : context ∉ [scheduler, process, next] := by
    simp [Ne.symm atContext, Ne.symm processContext, Ne.symm nextContext]
  let returned : Machine := { machine with
    heap := saved.setField process ProcessField.suspendedContext machine.registers.specials.nil
    registers.reclaimable := 0 }
  refine ⟨(machine.withHeap saved).handOver scheduler process next context home method receiver
    pc sp, returned, ?_⟩
  exact
    { left := Run.transferTo_ok saves schedules keeps.active suspendableSaved resting waitsSaved
        (by simp [atProcess, atNext, different]) outside
      loaded := rfl
      suspended := Heap.fetch_handOver_process suspendableSaved atProcess (Ne.symm different)
      waits := kept.handOver
        (by simp [Ne.symm atActive, Ne.symm processActive, Ne.symm nextActive])
      back := transferTo_back keeps suspendableSaved resting kept waitsSaved apart
      restored := rfl
      suspendedAgain := (Heap.fetch_setField_other (.inl different)).trans resting
      waitsAgain := waitsSaved.setField processContext (by decide) (by decide) _
      frames := fun object place above => by
        simp only [ContextField.frame] at above
        have early : ProcessField.suspendedContext ≠ place := by
          simp only [ProcessField.suspendedContext]
          omega
        exact (Heap.fetch_setField_other (.inr early)).trans
          (Heap.fetch_withCounters (by simp [ContextField.pc]; omega)
            (by simp [ContextField.stackPointer]; omega))
      untouched := ⟨counter, depth, rfl⟩ }

/-- Process 4 is active in the method context 7, and process 5 waits in a block of that
context. The scheduler is what the association holds. -/
def pairMachine (scheduler : Value) : Machine :=
  let nil : Value := .object 0
  let machine := sampleMachine
    [sampleNode .zero #[], sampleNode .zero #[nil, nil, nil, .object 2],
      sampleNode .zero #[.zero, scheduler], sampleNode .zero #[.zero, .object 4],
      sampleNode .zero #[nil, .object 4, .ofInt 1, nil],
      sampleNode .zero #[nil, .object 9, .ofInt 1, nil], sampleMethod 0 [] #[120, 120],
      sampleNode .zero #[nil, nil, nil, .object 6, nil, .object 8, nil, nil],
      sampleNode .zero #[],
      sampleNode .zero #[nil, .ofInt 6, .zero, .zero, .ofInt 6, .object 7, nil, nil]]
    20 nil
  { machine with registers.specials.array := .object 1 }

theorem agrees_pairMachine (scheduler : Value) : (pairMachine scheduler).Agrees where
  homeOf := ⟨.object 6, rfl, rfl⟩
  runs := rfl
  receives := rfl
  next := ⟨MethodHeader.pack 0 0 0 0 false, rfl,
    show ((0 : Nat) : Int) + (MethodHeader.pack 0 0 0 0 false).firstPc ≤ SmallInt.maximum by
      decide⟩
  inside := ⟨_, rfl, show 5 < 8 by decide⟩
  fits := show ((5 : Nat) : Int) ≤ SmallInt.maximum by decide

theorem waits_pairMachine (scheduler : Value) :
    (pairMachine scheduler).heap.Waits (.object 9) (.object 7) (.object 6) (.object 8) 1 5 where
  homeOf := ⟨.zero, rfl, rfl⟩
  runs := rfl
  receives := rfl
  next := ⟨MethodHeader.pack 0 0 0 0 false, rfl, rfl⟩
  depth := rfl

theorem transfer_there_and_back_pairMachine :
    let machine := pairMachine (.object 3)
    machine.Agrees ∧ machine.Schedules (.object 2) (.object 3) (.object 4) ∧
      ∃ switched returned, machine.TakesTurns switched returned (.object 4) (.object 5)
        (.object 9) (.object 7) (.object 6) (.object 8) 1 5 := by
  intro machine
  have schedules : machine.Schedules (.object 2) (.object 3) (.object 4) := ⟨rfl, rfl, rfl⟩
  have agrees := agrees_pairMachine (.object 3)
  exact ⟨agrees, schedules, transfer_there_and_back agrees schedules rfl rfl
    (waits_pairMachine (.object 3)) (by decide +kernel)⟩

/-- When the association holds the active process, where a scheduler should be, the context of
that process is lost. -/
theorem not_takesTurns_pairMachine :
    let machine := pairMachine (.object 4)
    machine.Agrees ∧ machine.Schedules (.object 2) (.object 4) (.object 4) ∧
      machine.heap.fetch (.object 5) ProcessField.suspendedContext = .ok (.object 9) ∧
      machine.heap.Waits (.object 9) (.object 7) (.object 6) (.object 8) 1 5 ∧
      machine.registers.activeContext ≠ .object 9 ∧
      ¬ ∃ switched returned, machine.TakesTurns switched returned (.object 4) (.object 5)
        (.object 9) (.object 7) (.object 6) (.object 8) 1 5 := by
  intro machine
  refine ⟨agrees_pairMachine _, ⟨rfl, rfl, rfl⟩, rfl, waits_pairMachine _, by decide +kernel, ?_⟩
  rintro ⟨switched, returned, turns⟩
  have refused : (Run.transferTo (.object 5) >>= fun _ => Run.transferTo (.object 4)).ended?
      machine = none := by decide +kernel
  rw [Run.ended?, Run.bind_ok turns.left, turns.back] at refused
  cases refused

end Machine

end Smalltalk

import Mathlib.Logic.Function.Basic
import Smalltalk.Proofs.Scheduler.Queues

namespace Smalltalk

/-! What the scheduler finds in the heap: itself, its ready lists, the semaphores,
and the processes that run or wait. Every object serves it in one way at most, so
that what it writes into one of them does not disturb the others. -/

/-- How an object serves the scheduler. -/
inductive Role where
  /-- It leads to the scheduler or holds the ready lists, and is only read. -/
  | fixed
  | scheduler
  /-- A ready list or a semaphore. -/
  | queue
  | process
deriving DecidableEq

/-- What stays the same while processes take turns: the objects that serve the
scheduler and the priorities of the processes, as far as these have one. -/
structure Plan where
  role : Value → Option Role
  priority : Value → Option Nat
  association : Value
  scheduler : Value
  lists : Value
  /-- The ready lists, that of priority one first. -/
  ready : List Value
  association_role : role association = some .fixed
  scheduler_role : role scheduler = some .scheduler
  lists_role : role lists = some .fixed
  ready_role : ∀ list ∈ ready, role list = some .queue
  ready_nodup : ready.Nodup

/-- Who runs, and who waits where, those that wait longest first. -/
structure Roster where
  active : Value
  queue : Value → List Value

namespace Roster

/-- A process begins to wait. -/
def enqueue (roster : Roster) (list process : Value) : Roster :=
  { roster with queue := Function.update roster.queue list (roster.queue list ++ [process]) }

/-- The process that waits longest waits no more. -/
def dequeue (roster : Roster) (list : Value) : Roster :=
  { roster with queue := Function.update roster.queue list (roster.queue list).tail }

def activate (roster : Roster) (process : Value) : Roster := { roster with active := process }

variable (roster : Roster) {list other : Value} (process : Value)

@[simp] theorem active_enqueue : (roster.enqueue list process).active = roster.active := rfl

@[simp] theorem active_dequeue : (roster.dequeue list).active = roster.active := rfl

@[simp] theorem active_activate : (roster.activate process).active = process := rfl

@[simp] theorem queue_activate : (roster.activate process).queue = roster.queue := rfl

@[simp] theorem queue_enqueue_same :
    (roster.enqueue list process).queue list = roster.queue list ++ [process] :=
  Function.update_self ..

@[simp] theorem queue_dequeue_same : (roster.dequeue list).queue list = (roster.queue list).tail :=
  Function.update_self ..

theorem queue_enqueue_other (different : other ≠ list) :
    (roster.enqueue list process).queue other = roster.queue other :=
  Function.update_of_ne different ..

theorem queue_dequeue_other (different : other ≠ list) :
    (roster.dequeue list).queue other = roster.queue other :=
  Function.update_of_ne different ..

theorem mem_queue_enqueue_iff {member : Value} :
    member ∈ (roster.enqueue list process).queue other ↔
      member ∈ roster.queue other ∨ other = list ∧ member = process := by
  by_cases same : other = list
  · subst same
    simp
  · simp [queue_enqueue_other _ _ same, same]

theorem mem_of_mem_dequeue {member : Value}
    (inside : member ∈ (roster.dequeue list).queue other) : member ∈ roster.queue other := by
  by_cases same : other = list
  · subst same
    exact List.mem_of_mem_tail (roster.queue_dequeue_same ▸ inside)
  · rwa [queue_dequeue_other _ same] at inside

end Roster

/-- The priority of a process, if it has one. -/
def Heap.priority? (heap : Heap) (process : Value) : Option Nat :=
  (heap.fetchInt process ProcessField.priority).toOption.map fun n => max 1 n.toNat

namespace Plan

/-- Whether a process waits in a list. -/
def Waits (plan : Plan) (roster : Roster) (process : Value) : Prop :=
  ∃ list, plan.role list = some .queue ∧ process ∈ roster.queue list

/-- The process that waits longest among those of the highest priority, in the ready
list with that index. -/
structure IsNext (plan : Plan) (roster : Roster) (index : Nat) (list process : Value) : Prop where
  ready : plan.ready[index]? = some list
  first : ∃ rest, roster.queue list = process :: rest
  highest : ∀ higher other, index < higher → plan.ready[higher]? = some other →
    roster.queue other = []

/-- A machine on which the scheduler finds what it was planned to find. No context
that is active or suspended serves the scheduler itself. -/
structure Fits (plan : Plan) (machine : Machine) : Prop where
  array : plan.role machine.registers.specials.array = some .fixed
  association : machine.heap.fetch machine.registers.specials.array Special.schedulerAssociation
    = .ok plan.association
  scheduler : machine.heap.fetch plan.association AssociationField.value = .ok plan.scheduler
  lists : machine.heap.fetch plan.scheduler SchedulerField.processLists = .ok plan.lists
  ready : machine.heap.pointers plan.lists = .ok plan.ready.toArray
  priority : ∀ process, plan.role process = some .process →
    machine.heap.priority? process = plan.priority process
  nil : plan.role machine.registers.specials.nil = none
  context : plan.role machine.registers.activeContext = none
  suspended : ∀ process context, plan.role process = some .process →
    machine.heap.fetch process ProcessField.suspendedContext = .ok context →
      plan.role context = none

/-- Only processes wait, and none of them twice. -/
structure Distributes (plan : Plan) (roster : Roster) : Prop where
  processes : ∀ list process, plan.role list = some .queue → process ∈ roster.queue list →
    plan.role process = some .process
  nodup : ∀ list, plan.role list = some .queue → (roster.queue list).Nodup
  apart : ∀ list other process, plan.role list = some .queue → plan.role other = some .queue →
    process ∈ roster.queue list → process ∈ roster.queue other → list = other

/-- A machine on which a roster is in force: the lists are the chains of those that
wait, and a process that waits nowhere names no other. -/
structure Arranges (plan : Plan) (roster : Roster) (machine : Machine) : Prop
    extends plan.Fits machine, plan.Distributes roster where
  active : machine.heap.fetch plan.scheduler SchedulerField.activeProcess = .ok roster.active
  active_role : plan.role roster.active = some .process
  queues : ∀ list, plan.role list = some .queue →
    machine.heap.Queues machine.registers.specials.nil list (roster.queue list)
  unlinked : ∀ process, plan.role process = some .process → ¬ plan.Waits roster process →
    machine.heap.fetch process ProcessField.nextLink = .ok machine.registers.specials.nil

variable {plan : Plan} {roster : Roster} {machine : Machine} {object other value : Value}

/-- Objects that serve in different ways are different. -/
theorem ne_of_role {role another : Option Role} (first : plan.role object = role)
    (second : plan.role other = another) (different : role ≠ another) : object ≠ other :=
  fun same => different (first.symm.trans ((congrArg plan.role same).trans second))

namespace Distributes

variable {list process : Value} (distributes : plan.Distributes roster)

include distributes

theorem not_mem_queue (role : plan.role list = some .queue)
    (isQueue : plan.role other = some .queue) :
    other ∉ roster.queue list :=
  fun member => by
    have isProcess := distributes.processes list other role member
    rw [isQueue] at isProcess
    cases isProcess

theorem enqueue (role : plan.role list = some .queue) (linked : plan.role process = some .process)
    (waits : ¬ plan.Waits roster process) : plan.Distributes (roster.enqueue list process) where
  processes other member isQueue inside := by
    rcases (roster.mem_queue_enqueue_iff process).mp inside with old | ⟨-, rfl⟩
    · exact distributes.processes other member isQueue old
    · exact linked
  nodup other isQueue := by
    by_cases same : other = list
    · subst same
      rw [roster.queue_enqueue_same, ← List.concat_eq_append]
      exact (distributes.nodup other role).concat fun member => waits ⟨other, role, member⟩
    · rw [roster.queue_enqueue_other process same]
      exact distributes.nodup other isQueue
  apart one another member first second inOne inAnother := by
    rcases (roster.mem_queue_enqueue_iff process).mp inOne with old | ⟨rfl, rfl⟩
    · rcases (roster.mem_queue_enqueue_iff process).mp inAnother with also | ⟨rfl, rfl⟩
      · exact distributes.apart one another member first second old also
      · exact absurd ⟨one, first, old⟩ waits
    · rcases (roster.mem_queue_enqueue_iff member).mp inAnother with also | ⟨same, -⟩
      · exact absurd ⟨another, second, also⟩ waits
      · exact same.symm

theorem dequeue (list : Value) : plan.Distributes (roster.dequeue list) where
  processes other member isQueue inside :=
    distributes.processes other member isQueue (roster.mem_of_mem_dequeue inside)
  nodup other isQueue := by
    by_cases same : other = list
    · subst same
      rw [roster.queue_dequeue_same]
      exact (distributes.nodup other isQueue).tail
    · rw [roster.queue_dequeue_other same]
      exact distributes.nodup other isQueue
  apart one another member first second inOne inAnother :=
    distributes.apart one another member first second (roster.mem_of_mem_dequeue inOne)
      (roster.mem_of_mem_dequeue inAnother)

/-- Whoever was first in a list waits nowhere when it has been taken out. -/
theorem waits_dequeue_iff (role : plan.role list = some .queue) {rest : List Value}
    (members : roster.queue list = process :: rest) (member : Value) :
    plan.Waits (roster.dequeue list) member ↔ plan.Waits roster member ∧ member ≠ process := by
  constructor
  · intro ended
    rcases ended with ⟨other, isQueue, inside⟩
    refine ⟨⟨other, isQueue, roster.mem_of_mem_dequeue inside⟩, ?_⟩
    intro equal
    rcases equal with rfl
    have same : other = list := distributes.apart other list member isQueue role
      (roster.mem_of_mem_dequeue inside) (members ▸ List.mem_cons_self ..)
    have nodup := distributes.nodup list role
    rw [members] at nodup
    rw [same, roster.queue_dequeue_same, members, List.tail_cons] at inside
    exact (List.nodup_cons.mp nodup).1 inside
  · intro ended
    rcases ended with ⟨⟨other, isQueue, inside⟩, different⟩
    refine ⟨other, isQueue, ?_⟩
    by_cases same : other = list
    · subst same
      rw [members] at inside
      rw [roster.queue_dequeue_same, members, List.tail_cons]
      exact (List.mem_cons.mp inside).resolve_left different
    · rwa [roster.queue_dequeue_other same]

end Distributes

theorem waits_enqueue_iff (roster : Roster) {list : Value} (role : plan.role list = some .queue)
    (process member : Value) :
    plan.Waits (roster.enqueue list process) member ↔
      plan.Waits roster member ∨ member = process := by
  constructor
  · intro ended
    rcases ended with ⟨other, isQueue, inside⟩
    rcases (roster.mem_queue_enqueue_iff process).mp inside with old | ⟨-, same⟩
    · exact .inl ⟨other, isQueue, old⟩
    · exact .inr same
  · intro either
    rcases either with ⟨other, isQueue, inside⟩ | rfl
    · exact ⟨other, isQueue, (roster.mem_queue_enqueue_iff process).mpr (.inl inside)⟩
    · exact ⟨list, role, by simp⟩

/-- A field may be written when it is not one of those that lead to the ready lists
or hold a priority. -/
structure Writable (plan : Plan) (object : Value) (index : Nat) (value : Value) : Prop where
  fixed : plan.role object ≠ some .fixed
  scheduler : plan.role object = some .scheduler → index ≠ SchedulerField.processLists
  priority : plan.role object = some .process → index ≠ ProcessField.priority
  suspended : plan.role object = some .process → index = ProcessField.suspendedContext →
    plan.role value = none

theorem writable_of_queue (role : plan.role object = some .queue) (index : Nat) (value : Value) :
    plan.Writable object index value := by
  constructor <;> simp [role]

theorem writable_of_process (role : plan.role object = some .process) {index : Nat}
    (priority : index ≠ ProcessField.priority) (suspended : index ≠ ProcessField.suspendedContext)
    (value : Value) : plan.Writable object index value := by
  constructor <;> simp [role, priority, suspended]

theorem Fits.setField (fits : plan.Fits machine) {index : Nat}
    (writable : plan.Writable object index value) :
    plan.Fits { machine with heap := machine.heap.setField object index value } where
  array := fits.array
  association := by
    refine (Heap.fetch_setField_other (.inl fun same => ?_)).trans fits.association
    exact writable.fixed (same ▸ fits.array)
  scheduler := by
    refine (Heap.fetch_setField_other (.inl fun same => ?_)).trans fits.scheduler
    exact writable.fixed (same ▸ plan.association_role)
  lists := by
    refine (Heap.fetch_setField_other ?_).trans fits.lists
    by_cases same : object = plan.scheduler
    · exact .inr (writable.scheduler (same ▸ plan.scheduler_role))
    · exact .inl same
  ready := by
    refine (Heap.pointers_setField_other fun same => ?_).trans fits.ready
    exact writable.fixed (same ▸ plan.lists_role)
  priority := by
    intro process role
    have same : (machine.heap.setField object index value).fetch process ProcessField.priority
        = machine.heap.fetch process ProcessField.priority := by
      apply Heap.fetch_setField_other
      by_cases same : object = process
      · exact .inr (writable.priority (same ▸ role))
      · exact .inl same
    rw [← fits.priority process role, Heap.priority?, Heap.fetchInt, same, Heap.priority?,
      Heap.fetchInt]
  nil := fits.nil
  context := fits.context
  suspended := by
    intro process context role found
    by_cases same : object = process ∧ index = ProcessField.suspendedContext
    · rcases same with ⟨rfl, rfl⟩
      rw [Heap.eq_of_fetch_setField_same found]
      exact writable.suspended role rfl
    · refine fits.suspended process context role ((Heap.fetch_setField_other ?_).symm.trans found)
      exact (not_and_or.mp same).imp id id

namespace Arranges

variable (arranges : plan.Arranges roster machine)

include arranges

/-- Nil is no process, so it stands at the end of a queue only. -/
theorem head?_getD_eq_nil_iff {list : Value} (role : plan.role list = some .queue) :
    (roster.queue list).head?.getD machine.registers.specials.nil
      = machine.registers.specials.nil ↔ roster.queue list = [] := by
  cases members : roster.queue list with
  | nil => simp
  | cons first rest =>
    refine iff_of_false (fun same => ?_) (List.cons_ne_nil _ _)
    have isProcess : plan.role first = some .process :=
      arranges.processes list first role (members ▸ List.mem_cons_self ..)
    rw [show first = machine.registers.specials.nil from same, arranges.nil] at isProcess
    cases isProcess

omit arranges

/-- Fields that are no part of a queue and do not name the active process may be
written at any time. -/
theorem setField (arranges : plan.Arranges roster machine) {index : Nat}
    (writable : plan.Writable object index value)
    (scheduler : plan.role object ≠ some .scheduler)
    (queue : plan.role object = some .queue →
      index ≠ ListField.firstLink ∧ index ≠ ListField.lastLink)
    (process : plan.role object = some .process →
      index ≠ ProcessField.nextLink ∧ index ≠ ProcessField.myList) :
    plan.Arranges roster { machine with heap := machine.heap.setField object index value } := by
  have kept {other : Value} {place : Nat}
      (apart : object = other → index ≠ place) :
      (machine.heap.setField object index value).fetch other place
        = machine.heap.fetch other place := by
    apply Heap.fetch_setField_other
    by_cases same : object = other
    · exact .inr (apart same)
    · exact .inl same
  exact
    { toFits := arranges.toFits.setField writable
      active := (kept fun same => absurd (same ▸ plan.scheduler_role) scheduler).trans
        arranges.active
      active_role := arranges.active_role
      queues := fun list role => (arranges.queues list role).frame
        (kept fun same => (queue (same ▸ role)).1) (kept fun same => (queue (same ▸ role)).2)
        (fun link member => kept fun same =>
          (process (same ▸ arranges.processes list link role member)).1)
        (fun link member => kept fun same =>
          (process (same ▸ arranges.processes list link role member)).2)
      toDistributes := arranges.toDistributes
      unlinked := fun other role waits =>
        (kept fun same => (process (same ▸ role)).1).trans (arranges.unlinked other role waits) }

/-- Objects that do not serve the scheduler may be written at any time. -/
theorem setField_other (arranges : plan.Arranges roster machine) (index : Nat)
    (role : plan.role object = none) :
    plan.Arranges roster { machine with heap := machine.heap.setField object index value } :=
  arranges.setField
    { fixed := by simp [role]
      scheduler := by simp [role]
      priority := by simp [role]
      suspended := by simp [role] }
    (by simp [role]) (by simp [role]) (by simp [role])

/-- A process that is not running keeps the context that it goes on with. -/
theorem setSuspended (arranges : plan.Arranges roster machine) {process context : Value}
    (role : plan.role process = some .process) (outside : plan.role context = none) :
    plan.Arranges roster { machine with
      heap := machine.heap.setField process ProcessField.suspendedContext context } :=
  arranges.setField
    { fixed := by simp [role]
      scheduler := by simp [role]
      priority := fun _ => by decide
      suspended := fun _ _ => outside }
    (by simp [role]) (by simp [role]) fun _ => by decide

/-- Naming another process as the active one is all that it takes to switch. -/
theorem setActive (arranges : plan.Arranges roster machine) {process : Value}
    (role : plan.role process = some .process)
    (stored : (machine.heap.setField plan.scheduler SchedulerField.activeProcess process).fetch
      plan.scheduler SchedulerField.activeProcess = .ok process) :
    plan.Arranges (roster.activate process) { machine with
      heap := machine.heap.setField plan.scheduler SchedulerField.activeProcess process } := by
  have kept {other : Value} {serves : Role} (isOther : plan.role other = some serves)
      (different : serves ≠ .scheduler) (place : Nat) :
      (machine.heap.setField plan.scheduler SchedulerField.activeProcess process).fetch other place
        = machine.heap.fetch other place := by
    refine Heap.fetch_setField_other (.inl (plan.ne_of_role plan.scheduler_role isOther ?_))
    exact fun same => different (Option.some.inj same).symm
  exact
    { toFits := arranges.toFits.setField
        { fixed := by simp [plan.scheduler_role]
          scheduler := fun _ => by decide
          priority := by simp [plan.scheduler_role]
          suspended := by simp [plan.scheduler_role] }
      toDistributes := ⟨arranges.processes, arranges.nodup, arranges.apart⟩
      active := stored
      active_role := role
      queues := fun list isQueue => (arranges.queues list isQueue).frame
        (kept isQueue (by decide) _) (kept isQueue (by decide) _)
        (fun link member => kept (arranges.processes list link isQueue member) (by decide) _)
        fun link member => kept (arranges.processes list link isQueue member) (by decide) _
      unlinked := fun other isProcess waits =>
        (kept isProcess (by decide) _).trans (arranges.unlinked other isProcess waits) }

/-- The registers matter only for the special objects and the active context. -/
theorem withRegisters (arranges : plan.Arranges roster machine) {registers : Registers}
    (specials : registers.specials = machine.registers.specials)
    (context : plan.role registers.activeContext = none) :
    plan.Arranges roster { machine with registers } where
  array := by rw [specials]; exact arranges.array
  association := by rw [specials]; exact arranges.association
  scheduler := arranges.scheduler
  lists := arranges.lists
  ready := arranges.ready
  priority := arranges.priority
  nil := by rw [specials]; exact arranges.nil
  context := context
  suspended := arranges.suspended
  active := arranges.active
  active_role := arranges.active_role
  queues := by rw [specials]; exact arranges.queues
  toDistributes := arranges.toDistributes
  unlinked := by rw [specials]; exact arranges.unlinked

end Arranges

end Plan

end Smalltalk

import Smalltalk.Primitive.Control
import Smalltalk.Proofs.Machine.References
import Smalltalk.Proofs.Scheduler.Order
import Smalltalk.Proofs.Scheduler.Switching

namespace Smalltalk

/-! Processes signal semaphores and wait at them, give way to others, suspend
themselves and resume others. Whatever they ask for in whatever order, nobody is lost
and nobody runs twice, and the one that comes next is the one whose turn it is. -/

/-- A machine on which an orderly roster is in force. -/
structure Plan.WellFormed (plan : Plan) (roster : Roster) (machine : Machine) : Prop
    extends plan.Arranges roster machine, plan.Orderly roster

/-- What can be asked of the scheduler. A process suspends itself with a primitive,
which has a number of arguments. -/
inductive Request where
  | signal (semaphore : Value)
  | wait (semaphore : Value)
  | giveWay
  | suspend (count : Nat)
  | resume (process : Value)

namespace Request

/-- Do what is asked for. The answer is false when the receiver of a suspension is not
the active process, so that nothing happens. -/
def run : Request → Run Bool
  | signal semaphore => do
    Run.signal semaphore
    return true
  | wait semaphore => do
    Run.wait semaphore
    return true
  | giveWay => Reply.yieldActive
  | suspend count => Reply.suspendProcess count
  | resume process => do
    Run.resume process
    return true

/-- Semaphores are lists that are not among the ready lists, and a process that is
resumed neither runs nor waits. -/
def Admissible (plan : Plan) (roster : Roster) : Request → Prop
  | signal semaphore => plan.role semaphore = some .queue ∧ semaphore ∉ plan.ready
  | wait semaphore => plan.role semaphore = some .queue ∧ semaphore ∉ plan.ready
  | giveWay => True
  | suspend _ => True
  | resume process => plan.role process = some .process ∧ ¬ plan.Has roster process

/-- Whether the active process may cease to be active without another one being
resumed. -/
def yields : Request → Bool
  | wait _ => true
  | giveWay => true
  | suspend _ => true
  | _ => false

/-- Whether a process runs or waits after a request was answered. -/
def Keeps (plan : Plan) (before : Roster) (answer : Bool) : Request → Value → Prop
  | suspend _, process =>
    plan.Has before process ∧ ¬ (answer = true ∧ process = before.active)
  | resume other, process => plan.Has before process ∨ process = other
  | _, process => plan.Has before process

/-- What a request does to a roster. Only a suspension and a resumption change who runs
or waits. A signal wakes the process that waits longest, which then runs or is the last
of its ready list. A process that waits comes last. And a process that ceases to run is
followed by the one that is next. -/
structure Serves (plan : Plan) (request : Request) (answer : Bool) (before after : Roster) :
    Prop where
  has_iff : ∀ process, plan.Has after process ↔ request.Keeps plan before answer process
  wakes : ∀ semaphore first rest, request = signal semaphore →
    before.queue semaphore = first :: rest → after.queue semaphore = rest ∧
      (after.active = first ∨ ∃ index list, plan.ready[index]? = some list ∧
        plan.priority first = some (index + 1) ∧ after.queue list = before.queue list ++ [first])
  waits : ∀ semaphore, request = wait semaphore → after.active ≠ before.active →
    after.queue semaphore = before.queue semaphore ++ [before.active]
  follows : request.yields = true → after.active ≠ before.active →
    ∃ index list, plan.IsNext before index list after.active

end Request

namespace Run

variable {plan : Plan} {roster : Roster} {machine : Machine} {semaphore process : Value}

/-- The process that is next becomes active. -/
theorem switch_ensures (arranges : plan.Arranges roster machine) (sorted : plan.Sorted roster) :
    (wakeHighestPriority >>= transferTo).Ensures machine fun _ after =>
      ∃ index list process, plan.IsNext roster index list process ∧
        plan.WellFormed ((roster.dequeue list).activate process) after := by
  refine (wakeHighestPriority_ensures arranges).bind ?_
  intro process woken found
  rcases found with ⟨index, list, next, taken⟩
  rcases next.first with ⟨rest, members⟩
  have role : plan.role process = some .process :=
    arranges.processes list process (plan.role_of_ready next.ready)
      (members ▸ List.mem_cons_self ..)
  exact (transferTo_ensures taken role).mono fun _ after switched =>
    ⟨index, list, process, next, switched, next.orderly arranges.toDistributes sorted⟩

theorem resume_ensures (wellFormed : plan.WellFormed roster machine)
    (role : plan.role process = some .process) (new : ¬ plan.Has roster process) :
    (resume process).Ensures machine fun _ after =>
      ∃ later, plan.WellFormed later after ∧ plan.Resumes roster process later := by
  refine (activeProcess_ensures wellFormed.toArranges).bindExactly ?_
  refine (priorityOf_ensures wellFormed.toFits role).bindTo fun priority known => ?_
  have given := known.1
  refine (priorityOf_ensures wellFormed.toFits wellFormed.active_role).bindTo fun own known => ?_
  have owned := known.1
  split
  · rename_i above
    refine (sleep_ensures wellFormed.toArranges wellFormed.active_role wellFormed.resting).bind
      fun _ asleep ⟨index, list, sits, ready, slept⟩ => ?_
    refine (transferTo_ensures slept role).mono fun _ after switched => ?_
    have higher : index + 1 < priority := by
      rw [sits] at owned
      cases owned
      exact above
    rcases wellFormed.toOrderly.preempt new ready sits given higher with ⟨orderly, resumes⟩
    exact ⟨_, ⟨switched, orderly⟩, resumes⟩
  · rename_i below
    refine (sleep_ensures wellFormed.toArranges role fun waits => new (.inr waits)).mono
      fun _ after ⟨index, list, sits, ready, slept⟩ => ?_
    have bound : index + 1 ≤ own := by
      rw [sits] at given
      cases given
      omega
    rcases wellFormed.toOrderly.defer new ready sits owned bound with ⟨orderly, resumes⟩
    exact ⟨_, ⟨slept, orderly⟩, resumes⟩

/-- Counting the signals of a semaphore does not touch its queue. -/
theorem store_excess_ensures (wellFormed : plan.WellFormed roster machine)
    (role : plan.role semaphore = some .queue) (value : Value) :
    (store semaphore SemaphoreField.excessSignals value).Ensures machine fun _ after =>
      plan.WellFormed roster after := by
  refine (ensures_store machine _ _ _).mono ?_
  intro _ _ ended
  rcases ended with ⟨-, rfl⟩
  refine ⟨wellFormed.toArranges.setField (plan.writable_of_queue role _ _) ?_ ?_ ?_,
    wellFormed.toOrderly⟩
  · simp [role]
  · exact fun _ => by decide
  · simp [role]

end Run

namespace Request

open Run

variable {plan : Plan} {roster : Roster} {machine : Machine} {semaphore process : Value}

/-- A request that changes nothing. -/
theorem serves_self {request : Request} {answer : Bool}
    (has : ∀ process, plan.Has roster process ↔ request.Keeps plan roster answer process)
    (sleeps : ∀ semaphore, request = signal semaphore → roster.queue semaphore = []) :
    request.Serves plan answer roster roster where
  has_iff := has
  wakes := by
    intro semaphore first rest same members
    rw [sleeps semaphore same] at members
    cases members
  waits := fun _ _ different => absurd rfl different
  follows := fun _ different => absurd rfl different

/-! ## Signals -/

/-- The process that a signal wakes is out of every list until it is resumed. -/
theorem not_has_of_woken (wellFormed : plan.WellFormed roster machine)
    (role : plan.role semaphore = some .queue) {first : Value} {rest : List Value}
    (members : roster.queue semaphore = first :: rest) :
    ¬ plan.Has (roster.dequeue semaphore) first := by
  intro has
  rcases has with same | waits
  · have waited : plan.Waits roster first := ⟨semaphore, role, by simp [members]⟩
    exact wellFormed.resting (same ▸ waited)
  · exact ((wellFormed.waits_dequeue_iff role members first).mp waits).2 rfl

theorem serves_signal (wellFormed : plan.WellFormed roster machine)
    (role : plan.role semaphore = some .queue) (outside : semaphore ∉ plan.ready) {first : Value}
    {rest : List Value} (members : roster.queue semaphore = first :: rest) {later : Roster}
    (resumes : plan.Resumes (roster.dequeue semaphore) first later) :
    (signal semaphore).Serves plan true roster later := by
  have moved := wellFormed.waits_dequeue_iff role members
  have waited : plan.Waits roster first := ⟨semaphore, role, by simp [members]⟩
  refine { has_iff := fun member => ?_, wakes := ?_, waits := ?_, follows := ?_ }
  · rw [resumes.has_iff]
    constructor
    · intro either
      rcases either with (same | waits) | same
      · exact .inl same
      · exact .inr ((moved _).mp waits).1
      · exact .inr (same ▸ waited)
    · intro either
      rcases either with same | waits
      · exact .inl (.inl same)
      · by_cases woken : member = first
        · exact .inr woken
        · exact .inl (.inr ((moved _).mpr ⟨waits, woken⟩))
  · intro other head others same found
    cases same
    rw [members] at found
    cases found
    refine ⟨?_, resumes.placed.imp_right fun placed => ?_⟩
    · rw [resumes.others semaphore outside, roster.queue_dequeue_same, members, List.tail_cons]
    · rcases placed with ⟨index, list, ready, sits, queue⟩
      refine ⟨index, list, ready, sits, ?_⟩
      rw [queue, roster.queue_dequeue_other]
      exact fun same => outside (same ▸ List.mem_of_getElem? ready)
  · intro _ same
    cases same
  · intro yields
    cases yields

theorem signal_ensures (wellFormed : plan.WellFormed roster machine)
    (role : plan.role semaphore = some .queue) (outside : semaphore ∉ plan.ready) :
    (signal semaphore).run.Ensures machine fun answer after =>
      ∃ later, plan.WellFormed later after ∧
        (signal semaphore).Serves plan answer roster later := by
  have asked : (Run.signal semaphore).Ensures machine fun _ after =>
      ∃ later, plan.WellFormed later after ∧
        (signal semaphore).Serves plan true roster later := by
    refine (isEmptyList_ensures wellFormed.toArranges role).bindTo fun empty isEmpty => ?_
    split
    · rename_i none
      refine (ensures_fetchInt machine _ _).bindTo fun excess _ => ?_
      refine (store_excess_ensures wellFormed role _).mono fun _ after kept => ⟨roster, kept, ?_⟩
      apply serves_self (fun _ => Iff.rfl)
      intro _ same
      cases same
      exact isEmpty.mp none
    · rename_i some
      cases members : roster.queue semaphore with
      | nil => exact absurd (isEmpty.mpr members) some
      | cons first rest =>
        have isProcess := wellFormed.processes semaphore first role (by simp [members])
        have new := not_has_of_woken wellFormed role members
        refine (removeFirst_ensures wellFormed.toArranges role members).bind ?_
        intro first taken ended
        rcases ended with ⟨rfl, removed⟩
        have orderly := wellFormed.toOrderly.dequeue semaphore
        refine (Run.resume_ensures ⟨removed, orderly⟩ isProcess new).mono ?_
        intro _ after ended
        rcases ended with ⟨later, kept, resumes⟩
        exact ⟨later, kept, serves_signal wellFormed role outside members resumes⟩
  exact asked.bind fun _ after served => .pure served

/-! ## Switches -/

/-- Apart from what it does to a semaphore, a request that lets the next process run
is described by who has the processor then. -/
theorem serves_of_isNext {request : Request} {later : Roster}
    (yields : request.yields = true)
    (has : ∀ process, plan.Has later process ↔ request.Keeps plan roster true process)
    (waits : ∀ semaphore, request = wait semaphore →
      later.queue semaphore = roster.queue semaphore ++ [roster.active])
    (next : ∃ index list, plan.IsNext roster index list later.active) :
    request.Serves plan true roster later where
  has_iff := has
  wakes := by
    intro semaphore first rest same
    rw [same] at yields
    cases yields
  waits semaphore same _ := waits semaphore same
  follows _ _ := next

/-- A process that waits in a list, or nowhere, is followed by the one that is next. -/
theorem wait_ensures (wellFormed : plan.WellFormed roster machine)
    (role : plan.role semaphore = some .queue) (outside : semaphore ∉ plan.ready) :
    (wait semaphore).run.Ensures machine fun answer after =>
      ∃ later, plan.WellFormed later after ∧
        (wait semaphore).Serves plan answer roster later := by
  have asked : (Run.wait semaphore).Ensures machine fun _ after =>
      ∃ later, plan.WellFormed later after ∧ (wait semaphore).Serves plan true roster later := by
    refine (ensures_fetchInt machine _ _).bindTo fun excess _ => ?_
    split
    · refine (store_excess_ensures wellFormed role _).mono fun _ after kept => ⟨roster, kept, ?_⟩
      apply serves_self (fun _ => Iff.rfl)
      intro _ same
      cases same
    · refine (activeProcess_ensures wellFormed.toArranges).bindExactly ?_
      have different {index : Nat} {list : Value} (ready : plan.ready[index]? = some list) :
          list ≠ semaphore := fun same => outside (same ▸ List.mem_of_getElem? ready)
      have waits := plan.waits_enqueue_iff roster role roster.active
      have sorted : plan.Sorted (roster.enqueue semaphore roster.active) :=
        wellFormed.sorted.enqueue fun _ ready => absurd rfl (different ready)
      refine (addLast_ensures wellFormed.toArranges role wellFormed.active_role
        wellFormed.resting).bind fun _ asleep slept => ?_
      refine (switch_ensures slept sorted).mono ?_
      intro _ after ended
      rcases ended with ⟨index, list, process, next, switched⟩
      refine ⟨_, switched, serves_of_isNext rfl (fun member => ?_) ?_ ⟨index, list, ?_⟩⟩
      · rw [next.has_iff slept.toDistributes, waits]
        exact or_comm
      · intro _ same
        cases same
        rw [Roster.queue_activate, Roster.queue_dequeue_other _ (different next.ready).symm]
        exact roster.queue_enqueue_same _
      · exact next.of_queue_eq fun found =>
          roster.queue_enqueue_other roster.active (different found)
  exact asked.bind fun _ after served => .pure served

/-- The one that follows a process that gives way waited longest at its priority. -/
theorem isNext_of_giveWay (orderly : plan.Orderly roster) {own index : Nat} {list other : Value}
    (ready : plan.ready[own]? = some list) (sits : plan.priority roster.active = some (own + 1))
    (nonempty : roster.queue list ≠ [])
    (next : plan.IsNext (roster.enqueue list roster.active) index other process) :
    plan.IsNext roster own list process := by
  have members {another : Value} (away : another ≠ list) :=
    roster.queue_enqueue_other roster.active away
  have below {place : Nat} {another waiting : Value} (found : plan.ready[place]? = some another)
      (inside : waiting ∈ roster.queue another) : place ≤ own := by
    rcases orderly.foremost place another waiting found inside with ⟨priority, given, bound⟩
    rw [sits] at given
    cases given
    omega
  have atLeast : own ≤ index := by
    by_contra above
    have none := next.highest own list (by omega) ready
    rw [roster.queue_enqueue_same] at none
    simp at none
  rcases next.first with ⟨rest, first⟩
  have same : other = list := by
    by_contra different
    rw [members different] at first
    have atMost := below next.ready (first ▸ List.mem_cons_self ..)
    have equal : index = own := by omega
    have found := next.ready
    rw [equal, ready] at found
    exact different (Option.some.inj found).symm
  refine ⟨ready, ?_, fun higher another above found => ?_⟩
  · rw [same, roster.queue_enqueue_same] at first
    cases queue : roster.queue list with
    | nil => exact absurd queue nonempty
    | cons head others =>
      rw [queue] at first
      cases first
      exact ⟨others, rfl⟩
  · apply List.eq_nil_iff_forall_not_mem.mpr
    intro waiting inside
    have bound := below found inside
    omega

theorem giveWay_ensures (wellFormed : plan.WellFormed roster machine) :
    giveWay.run.Ensures machine fun answer after =>
      ∃ later, plan.WellFormed later after ∧ giveWay.Serves plan answer roster later := by
  have asked : yieldProcess.Ensures machine fun _ after =>
      ∃ later, plan.WellFormed later after ∧ giveWay.Serves plan true roster later := by
    refine (activeProcess_ensures wellFormed.toArranges).bindExactly ?_
    refine (priorityOf_ensures wellFormed.toFits wellFormed.active_role).bindTo
      fun priority known => ?_
    rcases known with ⟨given, positive⟩
    refine (readyList_ensures wellFormed.toFits priority).bindTo fun own ready => ?_
    refine (isEmptyList_ensures wellFormed.toArranges (plan.role_of_ready ready)).bindTo
      fun empty isEmpty => ?_
    split
    · refine .pure ⟨roster, wellFormed, serves_self (fun _ => Iff.rfl) ?_⟩
      intro _ same
      cases same
    · rename_i some
      refine (sleep_ensures wellFormed.toArranges wellFormed.active_role wellFormed.resting).bind
        fun _ asleep ⟨place, list, sits, found, slept⟩ => ?_
      have equal : place = priority - 1 := by
        rw [sits] at given
        cases given
        rfl
      rw [equal, ready] at found
      cases found
      have waits := plan.waits_enqueue_iff roster (plan.role_of_ready ready) roster.active
      have sorted : plan.Sorted (roster.enqueue own roster.active) :=
        wellFormed.sorted.enqueue fun index found => by rw [sits, equal, plan.index_eq ready found]
      refine (switch_ensures slept sorted).mono ?_
      intro _ after ended
      rcases ended with ⟨index, list, process, next, switched⟩
      refine ⟨_, switched, serves_of_isNext rfl (fun member => ?_) ?_ ?_⟩
      · rw [next.has_iff slept.toDistributes, waits]
        exact or_comm
      · intro _ same
        cases same
      · rw [← equal] at ready
        exact ⟨place, own, isNext_of_giveWay wellFormed.toOrderly ready sits
          (fun none => some (isEmpty.mpr none)) next⟩
  exact asked.bind fun _ after served => .pure served

theorem suspend_ensures (wellFormed : plan.WellFormed roster machine) (count : Nat) :
    (suspend count).run.Ensures machine fun answer after =>
      ∃ later, plan.WellFormed later after ∧
        (suspend count).Serves plan answer roster later := by
  refine (ensures_operand machine count).bindTo fun receiver _ => ?_
  refine (activeProcess_ensures wellFormed.toArranges).bindExactly ?_
  split
  · refine .pure ⟨roster, wellFormed, serves_self (fun process => ?_) ?_⟩
    · simp [Keeps]
    · intro _ same
      cases same
  · refine (ensures_getNil machine).bindExactly ?_
    refine (ensures_replace machine _ _).bind ?_
    intro _ _ ended
    rcases ended with ⟨-, rfl⟩
    have arranged : plan.Arranges roster { machine with
        heap := machine.heap.setField machine.registers.activeContext
          (machine.registers.sp - (count + 1) + 1) machine.registers.specials.nil
        registers.sp := machine.registers.sp - (count + 1) + 1 } :=
      (wellFormed.toArranges.setField_other _ wellFormed.context).withRegisters rfl
        wellFormed.context
    rw [← bind_assoc]
    refine (switch_ensures arranged wellFormed.sorted).bind ?_
    intro _ after ended
    rcases ended with ⟨index, list, process, next, switched⟩
    refine .pure ⟨_, switched, serves_of_isNext rfl (fun member => ?_) ?_ ⟨index, list, next⟩⟩
    · rw [next.has_iff wellFormed.toDistributes]
      constructor
      · exact fun waits => ⟨.inr waits, fun same => wellFormed.resting (same.2 ▸ waits)⟩
      · intro kept
        rcases kept with ⟨same | waits, different⟩
        · exact absurd ⟨rfl, same⟩ different
        · exact waits
    · intro _ same
      cases same

theorem resume_ensures (wellFormed : plan.WellFormed roster machine)
    (role : plan.role process = some .process) (new : ¬ plan.Has roster process) :
    (resume process).run.Ensures machine fun answer after =>
      ∃ later, plan.WellFormed later after ∧ (resume process).Serves plan answer roster later := by
  refine (Run.resume_ensures wellFormed role new).bind ?_
  intro _ after ended
  rcases ended with ⟨later, kept, resumes⟩
  refine .pure ⟨later, kept, ?_⟩
  refine { has_iff := resumes.has_iff, wakes := ?_, waits := ?_, follows := ?_ }
  · intro _ _ _ same
    cases same
  · intro _ same
    cases same
  · intro same
    cases same

/-- Every request that is answered leaves a machine on which an orderly roster is in
force, and does to the roster what it should. -/
theorem run_ensures (wellFormed : plan.WellFormed roster machine) {request : Request}
    (admissible : request.Admissible plan roster) :
    request.run.Ensures machine fun answer after =>
      ∃ later, plan.WellFormed later after ∧ request.Serves plan answer roster later := by
  cases request with
  | signal semaphore => exact signal_ensures wellFormed admissible.1 admissible.2
  | wait semaphore => exact wait_ensures wellFormed admissible.1 admissible.2
  | giveWay => exact giveWay_ensures wellFormed
  | suspend count => exact suspend_ensures wellFormed count
  | resume process => exact resume_ensures wellFormed admissible.1 admissible.2

end Request

namespace Plan

/-- Any number of requests, each of them admissible and answered. -/
inductive Runs (plan : Plan) (machine : Machine) : Machine → Prop
  | refl : Runs plan machine machine
  | step {middle after : Machine} {request : Request} {answer : Bool}
    (run : Runs plan machine middle)
    (admissible : ∀ roster, plan.WellFormed roster middle → request.Admissible plan roster)
    (answered : request.run middle = .ok answer after) : Runs plan machine after

/-- Whatever is asked of the scheduler in whatever order, an orderly roster remains in
force, and every request that is answered does to it what it should. -/
theorem wellFormed_of_runs {plan : Plan} {roster : Roster} {machine middle : Machine}
    (start : plan.WellFormed roster machine) (runs : plan.Runs machine middle) :
    ∃ before, plan.WellFormed before middle ∧
      ∀ (request : Request) answer after, request.Admissible plan before →
        request.run middle = .ok answer after →
          ∃ later, plan.WellFormed later after ∧ request.Serves plan answer before later := by
  have reached : ∃ before, plan.WellFormed before middle := by
    induction runs with
    | refl => exact ⟨roster, start⟩
    | step _ admissible answered induction =>
      rcases induction with ⟨before, wellFormed⟩
      obtain ⟨later, kept, -⟩ :=
        Request.run_ensures wellFormed (admissible before wellFormed) _ _ answered
      exact ⟨later, kept⟩
  rcases reached with ⟨before, wellFormed⟩
  exact ⟨before, wellFormed, fun request answer after admissible answered =>
    Request.run_ensures wellFormed admissible answer after answered⟩

/-! ## A crew of three -/

open Machine (sampleNode sampleMethod sampleMachine)

/-- Process 10 is active. Process 11 has a higher priority and waits at semaphore 8, and
process 12 is ready. -/
def crewMachine : Machine :=
  let nil : Value := .object 0
  let context := sampleNode .zero
    #[nil, .ofInt 10, .zero, .object 6, nil, .object 8, nil, nil]
  let machine := sampleMachine
    [sampleNode .zero #[], sampleNode .zero #[nil, nil, nil, .object 2],
      sampleNode .zero #[.zero, .object 3], sampleNode .zero #[.object 4, .object 10],
      sampleNode .zero #[.object 5, .object 9], sampleNode .zero #[.object 12, .object 12],
      sampleMethod 0 [] #[120], context, sampleNode .zero #[.object 11, .object 11, .zero],
      sampleNode .zero #[nil, nil], sampleNode .zero #[nil, nil, .ofInt 1, nil],
      sampleNode .zero #[nil, .object 13, .ofInt 2, .object 8],
      sampleNode .zero #[nil, .object 14, .ofInt 1, .object 5], context, context]
    20 nil
  { machine with registers.specials.array := .object 1 }

def crewRoles : List (Value × Role) :=
  [(.object 1, .fixed), (.object 2, .fixed), (.object 3, .scheduler), (.object 4, .fixed),
    (.object 5, .queue), (.object 8, .queue), (.object 9, .queue), (.object 10, .process),
    (.object 11, .process), (.object 12, .process)]

def crewPlan : Plan where
  role value := crewRoles.lookup value
  priority := crewMachine.heap.priority?
  association := .object 2
  scheduler := .object 3
  lists := .object 4
  ready := [.object 5, .object 9]
  association_role := rfl
  scheduler_role := rfl
  lists_role := rfl
  ready_role := by decide
  ready_nodup := by decide

def crewRoster : Roster where
  active := .object 10
  queue
    | .object 5 => [.object 12]
    | .object 8 => [.object 11]
    | _ => []

/-- What holds of the objects in a role is seen by looking at each of them. -/
theorem crewPlan_role {value : Value} {role : Role} (holds : Value → Prop)
    (has : crewPlan.role value = some role)
    (all : ∀ entry ∈ crewRoles, entry.2 = role → holds entry.1) : holds value := by
  rcases List.lookup_eq_some_iff.mp has with ⟨before, after, split, -⟩
  exact all (value, role) (by simp [split]) rfl

theorem wellFormed_crewMachine : crewPlan.WellFormed crewRoster crewMachine where
  array := rfl
  association := rfl
  scheduler := rfl
  lists := rfl
  ready := rfl
  priority _ _ := rfl
  nil := rfl
  context := rfl
  suspended process context role found := by
    have names := crewPlan_role
      (fun process => (crewMachine.heap.fetch process ProcessField.suspendedContext).toOption.bind
        crewPlan.role = none) role (by decide +kernel)
    rwa [found] at names
  processes list process role := crewPlan_role
    (fun list => ∀ process ∈ crewRoster.queue list, crewPlan.role process = some .process) role
    (by decide +kernel) process
  nodup list role := crewPlan_role (fun list => (crewRoster.queue list).Nodup) role
    (by decide +kernel)
  apart list other process role isQueue inside also := by
    have apart := crewPlan_role
      (fun list => ∀ entry ∈ crewRoles, entry.2 = .queue → ∀ process ∈ crewRoster.queue list,
        process ∈ crewRoster.queue entry.1 → list = entry.1) role (by decide +kernel)
    exact crewPlan_role
      (fun other => ∀ process ∈ crewRoster.queue list, process ∈ crewRoster.queue other →
        list = other) isQueue apart process inside also
  active := rfl
  active_role := rfl
  queues list role := crewPlan_role
    (fun list => crewMachine.heap.Queues crewMachine.registers.specials.nil list
      (crewRoster.queue list)) role (by decide +kernel)
  unlinked process role _ := crewPlan_role
    (fun process => crewMachine.heap.fetch process ProcessField.nextLink
      = .ok crewMachine.registers.specials.nil) role (by decide +kernel)
  resting := fun ⟨_, role, inside⟩ =>
    crewPlan_role (fun list => crewRoster.active ∉ crewRoster.queue list) role
      (by decide +kernel) inside
  sorted index list process ready inside := by
    have sits : ∀ entry ∈ crewPlan.ready.zipIdx, ∀ process ∈ crewRoster.queue entry.1,
        crewPlan.priority process = some (entry.2 + 1) := by decide +kernel
    exact sits (list, index) (List.mem_zipIdx_iff_getElem?.mpr ready) process inside
  foremost index list process ready inside := by
    have before : ∀ entry ∈ crewPlan.ready.zipIdx, crewRoster.queue entry.1 ≠ [] →
        entry.2 + 1 ≤ 1 := by decide +kernel
    exact ⟨1, by decide +kernel, before (list, index) (List.mem_zipIdx_iff_getElem?.mpr ready)
      (List.ne_nil_of_mem inside)⟩

/-- The machine after a request, as long as it is answered. -/
def replyTo (request : Request) (machine : Machine) : Machine :=
  ((request.run.ended? machine).map Prod.snd).getD machine

/-- A signal of the semaphore lets process 11 run. When it waits there again, process 12
is next, because process 10 has to wait behind it. -/
theorem wellFormed_crew_after_signal_and_wait :
    let semaphore := Value.object 8
    let signalled := replyTo (.signal semaphore) crewMachine
    let waiting := replyTo (.wait semaphore) signalled
    crewPlan.WellFormed crewRoster crewMachine ∧ crewPlan.Runs crewMachine waiting ∧
      signalled.heap.fetch crewPlan.scheduler SchedulerField.activeProcess = .ok (.object 11) ∧
      ∃ roster, crewPlan.WellFormed roster waiting ∧ roster.active = .object 12 := by
  intro semaphore signalled waiting
  have isSemaphore : crewPlan.role semaphore = some .queue ∧ semaphore ∉ crewPlan.ready := by
    decide +kernel
  have signals : (Request.signal semaphore).run.ended? crewMachine = some (true, signalled) := by
    decide +kernel
  have waits : (Request.wait semaphore).run.ended? signalled = some (true, waiting) := by
    decide +kernel
  have runs : crewPlan.Runs crewMachine waiting := by
    refine .step (.step .refl ?_ (Run.ended?_eq_some.mp signals)) ?_ (Run.ended?_eq_some.mp waits)
    · exact fun _ _ => isSemaphore
    · exact fun _ _ => isSemaphore
  rcases wellFormed_of_runs wellFormed_crewMachine runs with ⟨roster, wellFormed, -⟩
  refine ⟨wellFormed_crewMachine, runs, by decide +kernel, roster, wellFormed, ?_⟩
  have active : waiting.heap.fetch crewPlan.scheduler SchedulerField.activeProcess
      = .ok (.object 12) := by decide +kernel
  exact Except.ok.inj (wellFormed.active.symm.trans active)

end Plan

end Smalltalk

import Smalltalk.Proofs.Frame.Block
import Smalltalk.Proofs.Frame.Settling
import Smalltalk.Proofs.Scheduler.Requests

namespace Smalltalk

/-! Signals are neither made nor lost. What was signalled at a semaphore has been used by a
wait that is over, or is still counted, and it is counted only as long as nobody waits. There
is a limit to what can be counted: the signal that finds the greatest small integer sets the
count back to zero, and with it all the signals that were counted are gone. -/

/-- The semaphore counts as many signals as it did before. -/
def Heap.KeepsCount (semaphore : Value) (before after : Heap) : Prop :=
  after.fetch semaphore SemaphoreField.excessSignals
    = before.fetch semaphore SemaphoreField.excessSignals

namespace Run

variable {start machine : Machine} {semaphore process : Value}

theorem Relinked.wakeFrom {lists : Value} {priority : Nat} :
    Relinked start (wakeFrom lists priority) := by
  induction priority with
  | zero => exact Maintains.fail
  | succ priority induction => grind [Run.wakeFrom]

theorem Relinked.wakeHighestPriority : Relinked start wakeHighestPriority := by
  have counted : Relinked start getHeap := maintains_getHeap
  exact Relinked.bind (by grind [Run.readyLists]) fun lists => counted.bind fun heap => wakeFrom

/-- The active context is written when it is left, and it is no semaphore. -/
theorem transferTo_keepsCount (relinks : start.Relinks machine)
    (apart : start.registers.activeContext ≠ semaphore) (process : Value) :
    (transferTo process).Ensures machine fun _ after =>
      start.heap.KeepsCount semaphore after.heap := by
  have kept {left : Machine} {object value : Value} {index : Nat}
      (known : start.heap.KeepsCount semaphore left.heap)
      (other : object ≠ semaphore ∨ index ≠ SemaphoreField.excessSignals) :
      (store object index value).Ensures left fun _ after =>
        start.heap.KeepsCount semaphore after.heap ∧ after.registers = left.registers := by
    refine (ensures_store left object index value).mono ?_
    rintro _ _ ⟨-, rfl⟩
    exact ⟨(Heap.fetch_setField_other other).trans known, rfl⟩
  refine (ensures_getNil machine).bindExactly ?_
  refine (Relinked.scheduler machine relinks).bind fun scheduler _ ⟨relinks, _⟩ => ?_
  refine (Relinked.fetch _ relinks).bind fun suspended left ⟨relinks, _⟩ => ?_
  have active : left.registers.activeContext ≠ semaphore := relinks.active ▸ apart
  have saved : saveContext.Ensures left fun _ after =>
      start.heap.KeepsCount semaphore after.heap := by
    refine saveContext_writes.mono ?_
    rintro _ _ ⟨_, _, -, -, rfl, -, -⟩
    exact (Heap.fetch_setField_other (.inl active)).trans
      ((Heap.fetch_setField_other (.inl active)).trans (relinks.heap.fetch _ _ (.inl rfl)))
  refine saved.bind fun _ between known => ?_
  refine (ensures_getRegisters between).bindExactly ?_
  refine (kept known (.inr (by decide))).bind fun _ _ ⟨known, _⟩ => ?_
  refine (kept known (.inr (by decide))).bind fun _ ready ⟨known, _⟩ => ?_
  refine (ensures_fetch ready _ _).bindTo fun context _ => ?_
  refine (kept known (.inr (by decide))).bind fun _ stored ⟨known, _⟩ => ?_
  refine (loadContext_restores stored context).bind fun _ loaded ⟨same, _⟩ => ?_
  refine (ensures_modifyRegisters loaded _).mono ?_
  rintro _ _ rfl
  exact (congrArg (Heap.fetch · _ _) same).trans known

theorem switch_keepsCount (relinks : start.Relinks machine)
    (apart : start.registers.activeContext ≠ semaphore) :
    (wakeHighestPriority >>= transferTo).Ensures machine fun _ after =>
      start.heap.KeepsCount semaphore after.heap :=
  Ensures.bind (Relinked.wakeHighestPriority machine relinks) fun process _ ⟨relinks, _⟩ =>
    transferTo_keepsCount relinks apart process

theorem resume_keepsCount (relinks : start.Relinks machine)
    (apart : start.registers.activeContext ≠ semaphore) (process : Value) :
    (resume process).Ensures machine fun _ after => start.heap.KeepsCount semaphore after.heap := by
  refine (Relinked.activeProcess machine relinks).bind fun active _ ⟨relinks, _⟩ => ?_
  refine (Relinked.priorityOf _ relinks).bind fun priority _ ⟨relinks, _⟩ => ?_
  refine (Relinked.priorityOf _ relinks).bind fun own between ⟨relinks, _⟩ => ?_
  split
  · refine (Relinked.sleep between relinks).bind fun _ _ ⟨relinks, _⟩ => ?_
    exact transferTo_keepsCount relinks apart process
  · exact (Relinked.sleep between relinks).mono fun _ _ ended => ended.1.heap.fetch _ _ (.inl rfl)

end Run

/-- The count of a semaphore once another signal is counted. -/
def SmallInt.successor (n : Int) : Int := if n = SmallInt.maximum then 0 else n + 1

theorem Value.int?_ofInt_succ (n : SmallInt) :
    (ofInt (n.val + 1)).int? = some (SmallInt.successor n.val) := by
  rw [SmallInt.successor]
  have lower := n.lower
  have upper := n.upper
  by_cases full : n.val = SmallInt.maximum
  · rw [if_pos full, full]
    rfl
  · rw [if_neg full]
    exact int?_ofInt (by omega) (by omega)

theorem Value.int?_ofInt_pred (n : SmallInt) (positive : 0 < n.val) :
    (ofInt (n.val - 1)).int? = some (n.val - 1) := by
  have upper := n.upper
  refine int?_ofInt ?_ (by omega)
  have least : SmallInt.minimum ≤ 0 := by decide
  omega

namespace Request

/-- How many signals a semaphore counts after a request. -/
def countAfter (semaphore : Value) (count : Int) (queue : List Value) : Request → Int
  | signal other =>
    if other = semaphore ∧ queue = [] then SmallInt.successor count else count
  | wait other => if other = semaphore ∧ 0 < count then count - 1 else count
  | _ => count

/-- Who waits at a semaphore after a request. -/
def queueAfter (semaphore active : Value) (count : Int) (queue : List Value) :
    Request → List Value
  | signal other => if other = semaphore then queue.tail else queue
  | wait other => if other = semaphore ∧ ¬ 0 < count then queue ++ [active] else queue
  | _ => queue

end Request

/-- A semaphore that is no ready list counts signals, and processes wait there. -/
structure Plan.Shows (plan : Plan) (semaphore : Value) (count : Int) (queue : List Value)
    (roster : Roster) (machine : Machine) : Prop extends plan.WellFormed roster machine where
  role : plan.role semaphore = some .queue
  outside : semaphore ∉ plan.ready
  counts : machine.heap.fetchInt semaphore SemaphoreField.excessSignals = .ok count
  queued : roster.queue semaphore = queue

namespace Request

open Run

variable {plan : Plan} {roster : Roster} {machine : Machine} {semaphore : Value} {count : Int}
  {queue : List Value}

/-- The active context is no semaphore. -/
theorem active_ne (shows : plan.Shows semaphore count queue roster machine) :
    machine.registers.activeContext ≠ semaphore :=
  plan.ne_of_role shows.context shows.role nofun

theorem fetchInt_of_keepsCount {before after : Heap} (kept : before.KeepsCount semaphore after)
    (counts : before.fetchInt semaphore SemaphoreField.excessSignals = .ok count) :
    after.fetchInt semaphore SemaphoreField.excessSignals = .ok count := by
  rw [Heap.fetchInt, kept, ← Heap.fetchInt]
  exact counts

/-- A process that is taken from a ready list did not wait at the semaphore. -/
theorem switch_shows {start : Machine} (relinks : start.Relinks machine)
    (shows : plan.Shows semaphore count queue roster start) {asleep : Roster}
    (arranges : plan.Arranges asleep machine) (sorted : plan.Sorted asleep) {later : List Value}
    (queued : asleep.queue semaphore = later) :
    (wakeHighestPriority >>= transferTo).Ensures machine fun _ after =>
      ∃ roster, plan.Shows semaphore count later roster after := by
  have counted := switch_keepsCount relinks (active_ne shows)
  refine ((switch_ensures arranges sorted).and counted).mono ?_
  rintro _ after ⟨⟨index, list, process, next, switched⟩, kept⟩
  refine ⟨_, switched, shows.role, shows.outside, fetchInt_of_keepsCount kept shows.counts, ?_⟩
  rw [Roster.queue_activate, Roster.queue_dequeue_other]
  · exact queued
  · exact fun same => shows.outside (same ▸ List.mem_of_getElem? next.ready)

theorem resume_shows {start : Machine} (relinks : start.Relinks machine)
    (shows : plan.Shows semaphore count queue roster start) {woken : Roster}
    (wellFormed : plan.WellFormed woken machine) {later : List Value}
    (queued : woken.queue semaphore = later) {process : Value}
    (role : plan.role process = some .process) (new : ¬ plan.Has woken process) :
    (Run.resume process).Ensures machine fun _ after =>
      ∃ roster, plan.Shows semaphore count later roster after := by
  have counted := resume_keepsCount relinks (active_ne shows) process
  refine ((Run.resume_ensures wellFormed role new).and counted).mono ?_
  rintro _ after ⟨⟨roster, wellFormed, resumes⟩, kept⟩
  refine ⟨roster, wellFormed, shows.role, shows.outside, fetchInt_of_keepsCount kept shows.counts, ?_⟩
  rw [resumes.others semaphore shows.outside]
  exact queued

/-- A semaphore counts differently, the one that is looked at or another one. -/
theorem store_shows (shows : plan.Shows semaphore count queue roster machine) {other : Value}
    (role : plan.role other = some .queue) {value : Value} {later : Int}
    (counted : other = semaphore → value.int? = some later)
    (same : other ≠ semaphore → later = count) :
    (store other SemaphoreField.excessSignals value).Ensures machine fun _ after =>
      ∃ roster, plan.Shows semaphore later queue roster after := by
  have stored := ensures_store machine other SemaphoreField.excessSignals value
  refine ((store_excess_ensures shows.toWellFormed role value).and stored).mono ?_
  rintro _ _ ⟨wellFormed, held, rfl⟩
  refine ⟨roster, wellFormed, shows.role, shows.outside, ?_, shows.queued⟩
  by_cases own : other = semaphore
  · subst own
    exact Heap.fetchInt_of_fetch held (counted rfl)
  · rw [same own]
    refine fetchInt_of_keepsCount ?_ shows.counts
    exact Heap.fetch_setField_other (.inl own)

/-! ## Request by request -/

theorem signal_shows (shows : plan.Shows semaphore count queue roster machine) {other : Value}
    (role : plan.role other = some .queue) :
    (Run.signal other).Ensures machine fun _ after => ∃ later,
      plan.Shows semaphore ((signal other).countAfter semaphore count queue)
        ((signal other).queueAfter semaphore roster.active count queue) later after := by
  refine (isEmptyList_ensures shows.toArranges role).bindTo fun empty isEmpty => ?_
  split
  · rename_i none
    have unchanged : (signal other).queueAfter semaphore roster.active count queue = queue := by
      by_cases own : other = semaphore
      · have idle := isEmpty.mp none
        rw [own, shows.queued] at idle
        simp [queueAfter, idle]
      · exact if_neg own
    rw [unchanged]
    refine (ensures_fetchInt machine _ _).bindTo fun excess found => ?_
    refine store_shows shows role (fun own => ?_) fun own => if_neg fun both => own both.1
    subst own
    cases found.symm.trans shows.counts
    have idle := isEmpty.mp none
    rw [shows.queued] at idle
    rcases Heap.fetchInt_eq_ok_iff.mp found with ⟨value, -, known⟩
    cases value with
    | object slot => cases known
    | small n =>
      cases known
      rw [countAfter, if_pos ⟨rfl, idle⟩]
      exact Value.int?_ofInt_succ n
  · rename_i some
    cases members : roster.queue other with
    | nil => exact absurd (isEmpty.mpr members) some
    | cons first rest =>
      have isProcess := shows.processes other first role (by simp [members])
      have new := not_has_of_woken shows.toWellFormed role members
      have taken := (removeFirst_ensures shows.toArranges role members).and
        (Relinked.removeFirst machine (.refl machine))
      refine taken.bind ?_
      rintro first left ⟨⟨rfl, removed⟩, relinks, -⟩
      have counted : (signal other).countAfter semaphore count queue = count := by
        refine if_neg fun both => ?_
        rw [both.1, shows.queued, both.2] at members
        cases members
      rw [counted]
      refine resume_shows relinks shows ⟨removed, shows.toOrderly.dequeue other⟩ ?_ isProcess new
      by_cases own : other = semaphore
      · subst own
        rw [Roster.queue_dequeue_same, shows.queued]
        exact (if_pos rfl).symm
      · rw [Roster.queue_dequeue_other _ (Ne.symm own), shows.queued]
        exact (if_neg own).symm

theorem wait_shows (shows : plan.Shows semaphore count queue roster machine) {other : Value}
    (role : plan.role other = some .queue) (outside : other ∉ plan.ready) :
    (Run.wait other).Ensures machine fun _ after => ∃ later,
      plan.Shows semaphore ((wait other).countAfter semaphore count queue)
        ((wait other).queueAfter semaphore roster.active count queue) later after := by
  refine (ensures_fetchInt machine _ _).bindTo fun excess found => ?_
  have own_count (own : other = semaphore) : excess = count := by
    subst own
    exact Except.ok.inj (found.symm.trans shows.counts)
  split
  · rename_i positive
    have some (own : other = semaphore) : 0 < count := own_count own ▸ positive
    have unchanged : (wait other).queueAfter semaphore roster.active count queue = queue :=
      if_neg fun both => both.2 (some both.1)
    rw [unchanged]
    have elsewhere (away : other ≠ semaphore) :
        (wait other).countAfter semaphore count queue = count := if_neg fun both => away both.1
    refine store_shows shows role (fun own => ?_) elsewhere
    cases own_count own
    rcases Heap.fetchInt_eq_ok_iff.mp found with ⟨value, -, known⟩
    cases value with
    | object slot => cases known
    | small n =>
      cases known
      rw [countAfter, if_pos ⟨own, positive⟩]
      exact Value.int?_ofInt_pred n positive
  · rename_i none
    have exhausted (own : other = semaphore) : ¬ 0 < count := own_count own ▸ none
    have counted : (wait other).countAfter semaphore count queue = count :=
      if_neg fun both => exhausted both.1 both.2
    rw [counted]
    refine (activeProcess_ensures shows.toArranges).bindExactly ?_
    have slept := (addLast_ensures shows.toArranges role shows.active_role shows.resting).and
      (Relinked.addLast machine (.refl machine))
    refine slept.bind fun _ asleep ⟨arranges, relinks, _⟩ => ?_
    have sorted : plan.Sorted (roster.enqueue other roster.active) :=
      shows.sorted.enqueue fun _ ready => absurd (List.mem_of_getElem? ready) outside
    refine switch_shows relinks shows arranges sorted ?_
    by_cases own : other = semaphore
    · subst own
      rw [Roster.queue_enqueue_same, shows.queued]
      exact (if_pos ⟨rfl, exhausted rfl⟩).symm
    · rw [Roster.queue_enqueue_other _ _ (Ne.symm own), shows.queued]
      exact (if_neg fun both => own both.1).symm

theorem giveWay_shows (shows : plan.Shows semaphore count queue roster machine) :
    yieldProcess.Ensures machine fun _ after =>
      ∃ later, plan.Shows semaphore count queue later after := by
  refine (activeProcess_ensures shows.toArranges).bindExactly ?_
  refine (priorityOf_ensures shows.toFits shows.active_role).bindTo fun priority _ => ?_
  refine (readyList_ensures shows.toFits priority).bindTo fun own ready => ?_
  refine (isEmptyList_ensures shows.toArranges (plan.role_of_ready ready)).bindTo fun empty _ => ?_
  split
  · exact .pure ⟨roster, shows⟩
  · have slept := (sleep_ensures shows.toArranges shows.active_role shows.resting).and
      (Relinked.sleep machine (.refl machine))
    refine slept.bind fun _ asleep ⟨⟨place, list, sits, found, arranges⟩, relinks, _⟩ => ?_
    have sorted : plan.Sorted (roster.enqueue list roster.active) :=
      shows.sorted.enqueue fun index listed => by rw [sits, plan.index_eq found listed]
    refine switch_shows relinks shows arranges sorted ?_
    rw [Roster.queue_enqueue_other]
    · exact shows.queued
    · exact fun same => shows.outside (same ▸ List.mem_of_getElem? found)

theorem suspend_shows (shows : plan.Shows semaphore count queue roster machine) (arity : Nat) :
    (Reply.suspendProcess arity).Ensures machine fun _ after =>
      ∃ later, plan.Shows semaphore count queue later after := by
  refine (ensures_operand machine arity).bindTo fun receiver _ => ?_
  refine (activeProcess_ensures shows.toArranges).bindExactly ?_
  split
  · exact .pure ⟨roster, shows⟩
  · refine (ensures_getNil machine).bindExactly ?_
    refine (ensures_replace machine _ _).bind ?_
    rintro _ _ ⟨-, rfl⟩
    have arranged : plan.Arranges roster { machine with
        heap := machine.heap.setField machine.registers.activeContext
          (machine.registers.sp - (arity + 1) + 1) machine.registers.specials.nil
        registers.sp := machine.registers.sp - (arity + 1) + 1 } :=
      (shows.toArranges.setField_other _ shows.context).withRegisters rfl shows.context
    have kept : machine.heap.KeepsCount semaphore (machine.heap.setField
        machine.registers.activeContext (machine.registers.sp - (arity + 1) + 1)
        machine.registers.specials.nil) :=
      Heap.fetch_setField_other (.inl (active_ne shows))
    have replaced : plan.Shows semaphore count queue roster { machine with
        heap := machine.heap.setField machine.registers.activeContext
          (machine.registers.sp - (arity + 1) + 1) machine.registers.specials.nil
        registers.sp := machine.registers.sp - (arity + 1) + 1 } :=
      ⟨⟨arranged, shows.toOrderly⟩, shows.role, shows.outside,
        fetchInt_of_keepsCount kept shows.counts, shows.queued⟩
    rw [← bind_assoc]
    refine (switch_shows (.refl _) replaced arranged shows.sorted shows.queued).bind ?_
    exact fun _ after switched => .pure switched

/-- A request that is answered does to the count and the queue of a semaphore what it should,
up to the greatest small integer. -/
theorem run_shows (shows : plan.Shows semaphore count queue roster machine) {request : Request}
    (admissible : request.Admissible plan roster) :
    request.run.Ensures machine fun _ after => ∃ later,
      plan.Shows semaphore (request.countAfter semaphore count queue)
        (request.queueAfter semaphore roster.active count queue) later after := by
  cases request with
  | signal other =>
    exact (signal_shows shows admissible.1).bind fun _ _ signalled => .pure signalled
  | wait other =>
    exact (wait_shows shows admissible.1 admissible.2).bind fun _ _ waited => .pure waited
  | giveWay => exact (giveWay_shows shows).bind fun _ _ given => .pure given
  | suspend arity => exact suspend_shows shows arity
  | resume process =>
    have resumed := resume_shows (.refl machine) shows shows.toWellFormed shows.queued
      admissible.1 admissible.2
    exact resumed.bind fun _ _ resumed => .pure resumed

end Request

/-! ## Keeping a tally -/

/-- What has been asked of a semaphore, and what has come of it. -/
structure Tally where
  signals : Nat := 0
  /-- Waits that were over at once, because a signal was counted. -/
  passed : Nat := 0
  /-- Processes that a signal has woken. -/
  woken : Nat := 0
  waits : Nat := 0
  /-- Signals that found nobody waiting and the greatest count. -/
  dropped : Nat := 0
deriving DecidableEq

namespace Tally

/-- The waits that are over. -/
def completed (tally : Tally) : Nat := tally.passed + tally.woken

/-- Note what is asked, and what the semaphore shows before it is done. -/
def note (tally : Tally) (semaphore : Value) (machine : Machine) : Request → Tally
  | .signal other =>
    if other ≠ semaphore then tally
    else if machine.heap.fetch semaphore ListField.firstLink
        = .ok machine.registers.specials.nil then
      { tally with
        signals := tally.signals + 1
        dropped := tally.dropped +
          if machine.heap.fetchInt semaphore SemaphoreField.excessSignals
            = .ok SmallInt.maximum then 1 else 0 }
    else { tally with signals := tally.signals + 1, woken := tally.woken + 1 }
  | .wait other =>
    if other ≠ semaphore then tally
    else
      { tally with
        waits := tally.waits + 1
        passed := tally.passed +
          match machine.heap.fetchInt semaphore SemaphoreField.excessSignals with
          | .ok count => if 0 < count then 1 else 0
          | .error _ => 0 }
  | _ => tally

/-- Every signal is accounted for: it is still counted, a wait that is over has used it, or it
is gone with a count that was set back. Signals are counted only while nobody waits, and a wait
that is not over waits. -/
structure Accounts (tally : Tally) (initial count : Int) (queue : List Value) : Prop where
  conserved : initial + tally.signals
    = count + tally.completed + (SmallInt.maximum + 1) * tally.dropped
  nonnegative : 0 ≤ count
  idle : 0 < count → queue = []
  waiting : tally.waits = tally.completed + queue.length

variable {plan : Plan} {roster : Roster} {machine : Machine} {semaphore other : Value}
  {initial count : Int} {queue : List Value} {tally : Tally}

/-- The first link of a queue is nil when nobody waits there. -/
theorem fetch_firstLink_iff (shows : plan.Shows semaphore count queue roster machine) :
    machine.heap.fetch semaphore ListField.firstLink = .ok machine.registers.specials.nil ↔
      queue = [] := by
  rw [← shows.queued, ← shows.toArranges.head?_getD_eq_nil_iff shows.role,
    (shows.queues semaphore shows.role).first]
  exact ⟨Except.ok.inj, congrArg _⟩

theorem Accounts.signal (accounts : tally.Accounts initial count queue)
    (shows : plan.Shows semaphore count queue roster machine) (other : Value) :
    (tally.note semaphore machine (.signal other)).Accounts initial
      ((Request.signal other).countAfter semaphore count queue)
      ((Request.signal other).queueAfter semaphore roster.active count queue) := by
  have most : SmallInt.maximum = 1073741823 := rfl
  have conserved := accounts.conserved
  have nonnegative := accounts.nonnegative
  have waiting := accounts.waiting
  simp only [completed, most] at conserved waiting
  by_cases own : other = semaphore
  · by_cases empty : queue = []
    · have first := (fetch_firstLink_iff shows).mpr empty
      simp only [note, own, ne_eq, not_true_eq_false, if_false, first, if_true, shows.counts,
        Except.ok.injEq, Request.countAfter, empty, and_self, SmallInt.successor,
        Request.queueAfter, List.tail_nil]
      subst empty
      by_cases full : count = SmallInt.maximum
      · rw [if_pos full, if_pos full]
        rw [most] at full
        refine ⟨?_, Int.le_refl 0, fun _ => rfl, waiting⟩
        simp only [completed, most]
        push_cast
        omega
      · rw [if_neg full, if_neg full]
        refine ⟨?_, by omega, fun _ => rfl, waiting⟩
        simp only [completed, most]
        push_cast
        omega
    · have first : ¬ _ := fun none => empty ((fetch_firstLink_iff shows).mp none)
      simp only [note, own, ne_eq, not_true_eq_false, if_false, first, Request.countAfter, empty,
        and_false, Request.queueAfter, if_true]
      have zero : ¬ 0 < count := fun positive => empty (accounts.idle positive)
      have length := List.length_tail (l := queue)
      have some := List.length_pos_iff.mpr empty
      refine ⟨?_, nonnegative, fun positive => absurd positive zero, ?_⟩
      · simp only [completed, most]
        push_cast
        omega
      · simp only [completed]
        omega
  · simp only [note, ne_eq, own, not_false_eq_true, if_true, Request.countAfter, false_and,
      if_false, Request.queueAfter]
    exact accounts

theorem Accounts.wait (accounts : tally.Accounts initial count queue)
    (shows : plan.Shows semaphore count queue roster machine) (other : Value) :
    (tally.note semaphore machine (.wait other)).Accounts initial
      ((Request.wait other).countAfter semaphore count queue)
      ((Request.wait other).queueAfter semaphore roster.active count queue) := by
  have conserved := accounts.conserved
  have waiting := accounts.waiting
  simp only [completed] at conserved waiting
  by_cases own : other = semaphore
  · by_cases positive : 0 < count
    · simp only [note, own, ne_eq, not_true_eq_false, if_false, shows.counts, positive, if_true,
        Request.countAfter, and_self, Request.queueAfter, and_false]
      refine ⟨?_, by omega, fun _ => accounts.idle positive, ?_⟩
      · simp only [completed]
        push_cast
        omega
      · simp only [completed]
        omega
    · simp only [note, own, ne_eq, not_true_eq_false, if_false, shows.counts, positive, if_true,
        Request.countAfter, and_false, Request.queueAfter, not_false_eq_true, and_self]
      refine ⟨conserved, accounts.nonnegative, fun some => absurd some positive, ?_⟩
      simp only [completed, List.length_append, List.length_singleton]
      omega
  · simp only [note, ne_eq, own, not_false_eq_true, if_true, Request.countAfter, false_and,
      if_false, Request.queueAfter]
    exact accounts

/-- Whatever is asked, the semaphore is still accounted for. -/
theorem Accounts.note (accounts : tally.Accounts initial count queue)
    (shows : plan.Shows semaphore count queue roster machine) (request : Request) :
    (tally.note semaphore machine request).Accounts initial
      (request.countAfter semaphore count queue)
      (request.queueAfter semaphore roster.active count queue) := by
  cases request with
  | signal other => exact accounts.signal shows other
  | wait other => exact accounts.wait shows other
  | giveWay => exact accounts
  | suspend arity => exact accounts
  | resume process => exact accounts

end Tally

/-- The machine comes to a state by answered requests, and the tally says what was asked of the
semaphore. -/
inductive Plan.Tallied (plan : Plan) (semaphore : Value) (start : Machine) :
    Tally → Machine → Prop where
  | start : Tallied plan semaphore start {} start
  | step {tally : Tally} {middle after : Machine} {request : Request} {answer : Bool}
    (tallied : Tallied plan semaphore start tally middle)
    (admissible : ∀ roster, plan.WellFormed roster middle → request.Admissible plan roster)
    (answered : request.run middle = .ok answer after) :
    Tallied plan semaphore start (tally.note semaphore middle request) after

/-- At every point of every run the signals of a semaphore that nobody waited at when it began
are accounted for. Nothing is lost unless the greatest small integer is counted. -/
theorem Plan.signals_conserved {plan : Plan} {start middle : Machine} {roster : Roster}
    {semaphore : Value} {initial : Int} {tally : Tally}
    (wellFormed : plan.WellFormed roster start) (role : plan.role semaphore = some .queue)
    (outside : semaphore ∉ plan.ready) (nobody : roster.queue semaphore = [])
    (counts : start.heap.fetchInt semaphore SemaphoreField.excessSignals = .ok initial)
    (nonnegative : 0 ≤ initial) (tallied : plan.Tallied semaphore start tally middle) :
    ∃ count queue later, plan.Shows semaphore count queue later middle ∧
      tally.Accounts initial count queue := by
  induction tallied with
  | start =>
    refine ⟨initial, [], roster, ⟨wellFormed, role, outside, counts, nobody⟩, ?_⟩
    exact ⟨by simp [Tally.completed], nonnegative, fun _ => rfl, rfl⟩
  | @step tally middle after request answer _ admissible answered induction =>
    rcases induction with ⟨count, queue, later, shows, accounts⟩
    have ended := Request.run_shows shows (admissible later shows.toWellFormed)
    rcases ended answer after answered with ⟨next, shown⟩
    exact ⟨_, _, next, shown, accounts.note shows request⟩

namespace Plan

/-- Take the first process from the semaphore, which then counts as many signals as it can. -/
def fillSemaphore : Run Unit := do
  discard (Run.removeFirst (.object 8))
  Run.store (.object 8) SemaphoreField.excessSignals (.ofInt SmallInt.maximum)

def fullMachine : Machine :=
  ((fillSemaphore.ended? crewMachine).map Prod.snd).getD crewMachine

theorem wellFormed_fullMachine :
    crewPlan.WellFormed (crewRoster.dequeue (.object 8)) fullMachine := by
  have ended : fillSemaphore.ended? crewMachine = some ((), fullMachine) := by decide +kernel
  have fills : fillSemaphore.Ensures crewMachine fun _ after =>
      crewPlan.WellFormed (crewRoster.dequeue (.object 8)) after := by
    have role : crewPlan.role (.object 8) = some .queue := rfl
    have taken := Run.removeFirst_ensures wellFormed_crewMachine.toArranges role rfl
    have removed : (discard (Run.removeFirst (.object 8))).Ensures crewMachine fun _ after =>
        crewPlan.Arranges (crewRoster.dequeue (.object 8)) after :=
      taken.bind fun _ _ removed => .pure removed.2
    refine removed.bind fun _ _ arranges => Run.store_excess_ensures ?_ role _
    exact ⟨arranges, wellFormed_crewMachine.toOrderly.dequeue (.object 8)⟩
  exact fills _ _ (Run.ended?_eq_some.mp ended)

/-- The signal that finds the greatest count sets it to zero, so that the active process has to
wait. The next signal wakes it. -/
theorem signals_conserved_fullMachine :
    let semaphore := Value.object 8
    let emptied := replyTo (.signal semaphore) fullMachine
    let waiting := replyTo (.wait semaphore) emptied
    let woken := replyTo (.signal semaphore) waiting
    let tally : Tally := { signals := 2, passed := 0, woken := 1, waits := 1, dropped := 1 }
    crewPlan.Tallied semaphore fullMachine tally woken ∧
      ∃ count queue later, crewPlan.Shows semaphore count queue later woken ∧
        tally.Accounts SmallInt.maximum count queue := by
  intro semaphore emptied waiting woken tally
  have isSemaphore : crewPlan.role semaphore = some .queue ∧ semaphore ∉ crewPlan.ready := by
    decide +kernel
  have empties : (Request.signal semaphore).run.ended? fullMachine = some (true, emptied) := by
    decide +kernel
  have waits : (Request.wait semaphore).run.ended? emptied = some (true, waiting) := by
    decide +kernel
  have wakes : (Request.signal semaphore).run.ended? waiting = some (true, woken) := by
    decide +kernel
  have noted : (((({} : Tally).note semaphore fullMachine (.signal semaphore)).note semaphore
      emptied (.wait semaphore)).note semaphore waiting (.signal semaphore)) = tally := by
    decide +kernel
  have tallied : crewPlan.Tallied semaphore fullMachine tally woken := by
    rw [← noted]
    refine .step (.step (.step .start ?_ (Run.ended?_eq_some.mp empties)) ?_
      (Run.ended?_eq_some.mp waits)) ?_ (Run.ended?_eq_some.mp wakes)
    · exact fun _ _ => isSemaphore
    · exact fun _ _ => isSemaphore
    · exact fun _ _ => isSemaphore
  exact ⟨tallied, signals_conserved wellFormed_fullMachine isSemaphore.1 isSemaphore.2
    (by decide +kernel) (by decide +kernel) (by decide) tallied⟩

end Plan

end Smalltalk

import Smalltalk.Machine.Interrupts
import Smalltalk.Proofs.Primitive.DirectSend

namespace Smalltalk

/-! The timer is armed with a semaphore and a time, and the checks that follow compare the
time with the clock. A clock that has gone back takes the time along, so that what remains of
it stays the same. The first check that finds the time reached signals the semaphore and the
others do nothing, unless the time falls on zero before: that is how a timer looks that is not
armed, and nothing is signalled at all. -/

/-! ## Times on a clock that may wrap -/

/-- A time that is waited for, and when the clock was read last. -/
structure Deadline where
  last : Int
  due : Int

namespace Deadline

variable {deadline : Deadline} {times : List Int} {now : Int}

/-- The clock is read again. -/
def advance (deadline : Deadline) (now : Int) : Deadline :=
  { last := now
    due := if now < deadline.last then now + (deadline.due - deadline.last) else deadline.due }

/-- The clock is read several times. -/
def after (deadline : Deadline) (times : List Int) : Deadline := times.foldl advance deadline

@[simp] theorem after_nil : deadline.after [] = deadline := rfl

@[simp] theorem after_concat : deadline.after (times ++ [now]) = (deadline.after times).advance now :=
  List.foldl_concat ..

/-- The last reading has reached the time. -/
def Reached (deadline : Deadline) : Prop := deadline.due ≤ deadline.last

/-- One of the readings has reached the time. -/
def Passed (deadline : Deadline) (times : List Int) : Prop :=
  ∃ front, front ≠ [] ∧ front <+: times ∧ (deadline.after front).Reached

/-- The time is zero, from the start or after one of the readings. -/
def FallsOnZero (deadline : Deadline) (times : List Int) : Prop :=
  ∃ front, front <+: times ∧ (deadline.after front).due = 0

theorem not_passed_nil : ¬ deadline.Passed [] := by
  rintro ⟨front, some, early, -⟩
  exact some (List.prefix_nil.mp early)

theorem passed_concat :
    deadline.Passed (times ++ [now]) ↔
      deadline.Passed times ∨ (deadline.after (times ++ [now])).Reached := by
  constructor
  · rintro ⟨front, some, early, reached⟩
    rcases List.prefix_concat_iff.mp early with rfl | early
    · exact .inr reached
    · exact .inl ⟨front, some, early, reached⟩
  · rintro (⟨front, some, early, reached⟩ | reached)
    · exact ⟨front, some, early.trans (List.prefix_append ..), reached⟩
    · exact ⟨_, by simp, List.prefix_rfl, reached⟩

theorem fallsOnZero_nil : deadline.FallsOnZero [] ↔ deadline.due = 0 := by
  constructor
  · rintro ⟨front, early, zero⟩
    cases List.prefix_nil.mp early
    exact zero
  · exact fun zero => ⟨[], List.prefix_rfl, zero⟩

/-- A timer that is armed for the time zero counts as not armed from the start. -/
theorem fallsOnZero_of_due (zero : deadline.due = 0) : deadline.FallsOnZero times :=
  ⟨[], List.nil_prefix, zero⟩

theorem fallsOnZero_concat :
    deadline.FallsOnZero (times ++ [now]) ↔
      deadline.FallsOnZero times ∨ (deadline.after (times ++ [now])).due = 0 := by
  constructor
  · rintro ⟨front, early, zero⟩
    rcases List.prefix_concat_iff.mp early with rfl | early
    · exact .inr zero
    · exact .inl ⟨front, early, zero⟩
  · rintro (⟨front, early, zero⟩ | zero)
    · exact ⟨front, early.trans (List.prefix_append ..), zero⟩
    · exact ⟨_, List.prefix_rfl, zero⟩

/-- A check at a time is the one that rings: the first to find the time reached, which has
never been zero. -/
structure Rings (deadline : Deadline) (times : List Int) (now : Int) : Prop where
  early : ¬ deadline.Passed times
  reached : (deadline.after (times ++ [now])).Reached
  armed : ¬ deadline.FallsOnZero (times ++ [now])

end Deadline

namespace Timing

variable {timing : Timing} {now : Int}

/-- What the timer waits for. -/
def deadline (timing : Timing) : Deadline := ⟨timing.lastTick, timing.nextWakeup⟩

@[simp] theorem lastTick_tick : (timing.tick now).2.lastTick = now := by
  rw [tick]
  dsimp only
  split <;> rfl

theorem nextWakeup_tick :
    (timing.tick now).2.nextWakeup =
      if timing.nextWakeup = 0 then 0 else (timing.deadline.advance now).due := by
  have rebased : (timing.tick now).2.nextWakeup = (timing.rebase now).nextWakeup := by
    rw [tick]
    dsimp only
    split <;> rfl
  rw [rebased, rebase, Deadline.advance, deadline]
  split
  · rfl
  · by_cases zero : timing.nextWakeup = 0 <;> simp [zero]

end Timing

/-! ## What a check does besides -/

namespace Machine

variable {start machine after : Machine}

/-- What the timer will do is the same: it was compared with the clock at the same time, waits
for the same one and has the same semaphore. -/
structure SameAlarm (before after : Machine) : Prop where
  lastTick : after.timing.lastTick = before.timing.lastTick
  nextWakeup : after.timing.nextWakeup = before.timing.nextWakeup
  semaphore : after.heap.fetch after.registers.specials.array Special.timerSemaphore
    = before.heap.fetch before.registers.specials.array Special.timerSemaphore
  nil : after.registers.specials.nil = before.registers.specials.nil

/-- Neither the timer nor the special objects have changed, nor the field of any object that
has the place of the timer's semaphore among them. -/
structure LeavesAlarm (start machine : Machine) : Prop where
  timing : machine.timing = start.timing
  specials : machine.registers.specials = start.registers.specials
  fetch : ∀ object, machine.heap.fetch object Special.timerSemaphore
    = start.heap.fetch object Special.timerSemaphore

theorem LeavesAlarm.refl (machine : Machine) : machine.LeavesAlarm machine := ⟨rfl, rfl, fun _ => rfl⟩

end Machine

namespace Run

variable {α β : Type} {start machine : Machine}

/-- The computation does not touch the timer. -/
def Unalarming (start : Machine) (run : Run α) : Prop :=
  Maintains start.LeavesAlarm run fun _ => True

namespace Unalarming

@[grind ←]
theorem bind {run : Run α} {next : α → Run β} (first : Unalarming start run)
    (second : ∀ result, Unalarming start (next result)) : Unalarming start (run >>= next) :=
  Maintains.bind first fun result _ => second result

@[grind ←]
theorem pure {result : α} : Unalarming start (Pure.pure result : Run α) := Maintains.pure trivial

@[grind ←]
theorem failThen {reason : MachineError} {next : β → Run α} :
    Unalarming start (Run.fail reason >>= next) := Maintains.failThen

@[grind ←]
theorem getRegisters : Unalarming start getRegisters := maintains_getRegisters

@[grind ←]
theorem getNil : Unalarming start getNil := maintains_getNil

@[grind ←]
theorem fetch {object : Value} {index : Nat} : Unalarming start (fetch object index) :=
  maintains_readHeap

@[grind ←]
theorem fetchInt {object : Value} {index : Nat} : Unalarming start (fetchInt object index) :=
  maintains_readHeap

@[grind ←]
theorem methodHeader {method : Value} : Unalarming start (methodHeader method) :=
  maintains_methodHeader

@[grind ←]
theorem modifyRegisters {change : Registers → Registers}
    (same : ∀ registers, (change registers).specials = registers.specials) :
    Unalarming start (modifyRegisters change) :=
  maintains_modifyRegisters fun machine leaves =>
    ⟨leaves.timing, (same machine.registers).trans leaves.specials, leaves.fetch⟩

@[grind ←]
theorem store {object value : Value} {index : Nat} (low : index < Special.timerSemaphore) :
    Unalarming start (store object index value) :=
  fun machine leaves => (ensures_store machine object index value).mono <| by
    rintro _ _ ⟨-, rfl⟩
    refine ⟨⟨leaves.timing, leaves.specials, fun other => ?_⟩, trivial⟩
    exact (Heap.fetch_setField_other (.inr low.ne)).trans (leaves.fetch other)

@[grind ←]
theorem specialObject {index : Nat} : Unalarming start (specialObject index) := by
  grind [Run.specialObject]

@[grind ←]
theorem homeOf {context : Value} : Unalarming start (homeOf context) := by
  grind [Run.homeOf]

@[grind ←]
theorem encodePc {method : Value} {pc : Nat} : Unalarming start (encodePc method pc) := by
  grind [Run.encodePc]

@[grind ←]
theorem decodePc {method : Value} {encoded : Int} : Unalarming start (decodePc method encoded) := by
  grind [Run.decodePc]

@[grind ←]
theorem loadContext {context : Value} : Unalarming start (loadContext context) := by
  grind [Run.loadContext]

@[grind ←]
theorem saveContext : Unalarming start saveContext := by
  refine getRegisters.bind fun registers => encodePc.bind fun pc => ?_
  exact (store (by decide)).bind fun _ => store (by decide)

@[grind ←]
theorem scheduler : Unalarming start scheduler := by
  grind [Run.scheduler]

@[grind ←]
theorem activeProcess : Unalarming start activeProcess := by
  grind [Run.activeProcess]

@[grind ←]
theorem priorityOf {process : Value} : Unalarming start (priorityOf process) := by
  grind [Run.priorityOf]

@[grind ←]
theorem isEmptyList {list : Value} : Unalarming start (isEmptyList list) := by
  grind [Run.isEmptyList]

theorem addLast {link list : Value} : Unalarming start (addLast link list) := by
  have linked (object : Value) {index : Nat} (low : index < Special.timerSemaphore) :
      Unalarming start (do
        Run.store object index link
        Run.store list ListField.lastLink link
        Run.store link ProcessField.myList list) :=
    (store low).bind fun _ => (store (by decide)).bind fun _ => store (by decide)
  refine isEmptyList.bind fun empty => ?_
  cases empty with
  | true => exact linked list (by decide)
  | false => exact fetch.bind fun last => linked last (by decide)

theorem removeFirst {list : Value} : Unalarming start (removeFirst list) := by
  refine getNil.bind fun nil => fetch.bind fun first => fetch.bind fun last => ?_
  have unlinked : Unalarming start (do
      Run.store first ProcessField.nextLink nil
      Run.store first ProcessField.myList nil
      return first) :=
    (store (by decide)).bind fun _ => (store (by decide)).bind fun _ => pure
  dsimp only
  split
  · exact (store (by decide)).bind fun _ => (store (by decide)).bind fun _ => unlinked
  · exact fetch.bind fun next => (store (by decide)).bind fun _ => unlinked

theorem sleep {process : Value} : Unalarming start (sleep process) :=
  priorityOf.bind fun _ => (Unalarming.bind (by grind [Run.readyLists]) fun _ => fetch).bind
    fun _ => addLast

theorem transferTo {process : Value} : Unalarming start (transferTo process) := by
  refine getNil.bind fun nil => scheduler.bind fun scheduler => fetch.bind fun suspended => ?_
  refine saveContext.bind fun _ => getRegisters.bind fun registers => ?_
  refine (store (by decide)).bind fun _ => (store (by decide)).bind fun _ => ?_
  refine fetch.bind fun context => (store (by decide)).bind fun _ => loadContext.bind fun _ => ?_
  exact modifyRegisters fun _ => rfl

theorem resume {process : Value} : Unalarming start (resume process) := by
  refine activeProcess.bind fun active => priorityOf.bind fun _ => priorityOf.bind fun _ => ?_
  split
  · exact sleep.bind fun _ => transferTo
  · exact sleep

theorem signal {semaphore : Value} : Unalarming start (signal semaphore) := by
  refine isEmptyList.bind fun empty => ?_
  cases empty with
  | true => exact fetchInt.bind fun excess => store (by decide)
  | false => exact removeFirst.bind fun first => resume

theorem signalSpecial {index : Nat} : Unalarming start (signalSpecial index) := by
  refine specialObject.bind fun semaphore => getNil.bind fun nil => ?_
  split
  · exact signal
  · exact pure

end Unalarming

/-- What a check does besides looking at the timer. -/
def attend (now : Int) : Run Unit := do
  tick now
  if ← takeInterrupt then signalSpecial Special.interruptSemaphore

/-- The timer is not armed any more. -/
def disarm : Run Unit := modify fun machine => { machine with timing.nextWakeup := 0 }

/-- Signal the semaphore of the timer, if the timer has run out. -/
def ring (now : Int) : Run Unit := do
  if ← takeWakeup now then signalSpecial Special.timerSemaphore

theorem checkInterruptsAt_eq (now : Int) :
    checkInterruptsAt now = (do attend now; ring now) := by
  simp only [checkInterruptsAt, attend, ring, bind_assoc]
  congr 1
  funext _
  congr 1
  funext interrupted
  cases interrupted <;> simp

theorem ensures_tick (machine : Machine) (now : Int) :
    (tick now).Ensures machine fun _ after =>
      after.timing = (machine.timing.tick now).2 ∧ after.registers = machine.registers ∧
        after.heap = machine.heap := by
  refine (ensures_modify machine _).mono ?_
  rintro _ _ rfl
  exact ⟨rfl, rfl, rfl⟩

theorem ensures_takeInterrupt (machine : Machine) :
    takeInterrupt.Ensures machine fun _ after => machine.LeavesAlarm after := by
  refine (ensures_modifyGet machine _).mono fun interrupted after taken => ?_
  cases taken
  exact ⟨rfl, rfl, fun _ => rfl⟩

/-- Apart from the reading of the clock, nothing about the timer changes. -/
theorem attend_ensures (machine : Machine) (now : Int) :
    (attend now).Ensures machine fun _ after =>
      after.timing = (machine.timing.tick now).2 ∧
        after.registers.specials = machine.registers.specials ∧
        ∀ object, after.heap.fetch object Special.timerSemaphore
          = machine.heap.fetch object Special.timerSemaphore := by
  refine (ensures_tick machine now).bind fun _ ticked ⟨timing, registers, heap⟩ => ?_
  have kept {after : Machine} (leaves : ticked.LeavesAlarm after) :
      after.timing = (machine.timing.tick now).2 ∧
        after.registers.specials = machine.registers.specials ∧
        ∀ object, after.heap.fetch object Special.timerSemaphore
          = machine.heap.fetch object Special.timerSemaphore :=
    ⟨leaves.timing.trans timing, leaves.specials.trans (by rw [registers]),
      fun object => (leaves.fetch object).trans (by rw [heap])⟩
  refine (ensures_takeInterrupt ticked).bind fun interrupted asked leaves => ?_
  split
  · exact (Unalarming.signalSpecial asked leaves).mono fun _ _ ended => kept ended.1
  · exact .pure (kept leaves)

variable {now : Int}

theorem takeWakeup_apply (now : Int) (machine : Machine) :
    takeWakeup now machine = .ok (machine.timing.takeWakeup now).1
      { machine with timing := (machine.timing.takeWakeup now).2 } := rfl

theorem ring_quiet (quiet : ¬ (machine.timing.nextWakeup ≠ 0 ∧ machine.timing.nextWakeup ≤ now)) :
    ring now machine = .ok () machine := by
  have taken : machine.timing.takeWakeup now = (false, machine.timing) := if_neg quiet
  have asked : takeWakeup now machine = .ok false machine := by
    rw [takeWakeup_apply, taken]
  exact bind_ok asked

theorem ring_rings (due : machine.timing.nextWakeup ≠ 0 ∧ machine.timing.nextWakeup ≤ now) :
    ring now machine = (do disarm; signalSpecial Special.timerSemaphore) machine := by
  have taken : machine.timing.takeWakeup now = (true, { machine.timing with nextWakeup := 0 }) :=
    if_pos due
  have asked : takeWakeup now machine
      = .ok true { machine with timing.nextWakeup := 0 } := by
    rw [takeWakeup_apply, taken]
  exact bind_ok asked

end Run

/-! ## Check after check -/

namespace Machine

variable {armed machine after : Machine} {times : List Int} {now : Int}

/-- A machine after checks at some times. In between anything may happen that does not touch
the timer. -/
inductive Watched (armed : Machine) : (times : List Int) → Machine → Prop where
  | start : Watched armed [] armed
  | work {times : List Int} {machine after : Machine} (earlier : Watched armed times machine)
      (same : machine.SameAlarm after) : Watched armed times after
  | check {times : List Int} {machine after : Machine} (earlier : Watched armed times machine)
      (now : Int) (ended : Run.checkInterruptsAt now machine = .ok () after) :
      Watched armed (times ++ [now]) after

/-- The timer is where the readings of the clock have brought it, or not armed any more. -/
structure Awaits (armed : Machine) (times : List Int) (machine : Machine) : Prop where
  lastTick : machine.timing.lastTick = (armed.timing.deadline.after times).last
  pending : ¬ armed.timing.deadline.Passed times → ¬ armed.timing.deadline.FallsOnZero times →
    machine.timing.nextWakeup = (armed.timing.deadline.after times).due
  spent : armed.timing.deadline.Passed times ∨ armed.timing.deadline.FallsOnZero times →
    machine.timing.nextWakeup = 0
  semaphore : machine.heap.fetch machine.registers.specials.array Special.timerSemaphore
    = armed.heap.fetch armed.registers.specials.array Special.timerSemaphore
  nil : machine.registers.specials.nil = armed.registers.specials.nil

namespace Awaits

theorem start (armed : Machine) : armed.Awaits [] armed where
  lastTick := rfl
  pending _ _ := rfl
  spent
    | .inl passed => absurd passed Deadline.not_passed_nil
    | .inr fell => Deadline.fallsOnZero_nil.mp fell
  semaphore := rfl
  nil := rfl

theorem work (awaits : armed.Awaits times machine) (same : machine.SameAlarm after) :
    armed.Awaits times after where
  lastTick := same.lastTick.trans awaits.lastTick
  pending early armed := same.nextWakeup.trans (awaits.pending early armed)
  spent ended := same.nextWakeup.trans (awaits.spent ended)
  semaphore := same.semaphore.trans awaits.semaphore
  nil := same.nil.trans awaits.nil

/-- As long as the timer is armed it waits for the time that belongs to the last reading. -/
theorem deadline_eq (awaits : armed.Awaits times machine)
    (early : ¬ armed.timing.deadline.Passed times)
    (zero : ¬ armed.timing.deadline.FallsOnZero times) :
    machine.timing.deadline = armed.timing.deadline.after times := by
  rw [Timing.deadline, awaits.lastTick, awaits.pending early zero]

theorem tick_pending (awaits : armed.Awaits times machine)
    (early : ¬ armed.timing.deadline.Passed times)
    (zero : ¬ armed.timing.deadline.FallsOnZero (times ++ [now])) :
    (machine.timing.tick now).2.nextWakeup = (armed.timing.deadline.after (times ++ [now])).due := by
  have before : ¬ armed.timing.deadline.FallsOnZero times :=
    fun fell => zero (Deadline.fallsOnZero_concat.mpr (.inl fell))
  have armedStill : machine.timing.nextWakeup ≠ 0 := by
    rw [awaits.pending early before]
    exact fun fell => before ⟨times, List.prefix_rfl, fell⟩
  rw [Timing.nextWakeup_tick, if_neg armedStill, awaits.deadline_eq early before,
    Deadline.after_concat]

theorem tick_spent (awaits : armed.Awaits times machine)
    (ended : armed.timing.deadline.Passed times ∨
      armed.timing.deadline.FallsOnZero (times ++ [now])) :
    (machine.timing.tick now).2.nextWakeup = 0 := by
  rw [Timing.nextWakeup_tick]
  split
  · rfl
  · rename_i armedStill
    have early := fun passed => armedStill (awaits.spent (.inl passed))
    have before := fun fell => armedStill (awaits.spent (.inr fell))
    rw [awaits.deadline_eq early before, ← Deadline.after_concat]
    exact (Deadline.fallsOnZero_concat.mp (ended.resolve_left early)).resolve_left before

/-- Exactly the check that rings finds the timer armed and its time reached. -/
theorem due_iff_rings (awaits : armed.Awaits times machine) :
    (machine.timing.tick now).2.nextWakeup ≠ 0 ∧ (machine.timing.tick now).2.nextWakeup ≤ now ↔
      armed.timing.deadline.Rings times now := by
  have last : (armed.timing.deadline.after (times ++ [now])).last = now := by
    rw [Deadline.after_concat]
    rfl
  constructor
  · rintro ⟨armedStill, reached⟩
    have early := fun passed => armedStill (awaits.tick_spent (.inl passed))
    have zero := fun fell => armedStill (awaits.tick_spent (.inr fell))
    rw [awaits.tick_pending early zero] at reached
    exact ⟨early, reached.trans_eq last.symm, zero⟩
  · rintro ⟨early, reached, zero⟩
    rw [awaits.tick_pending early zero]
    exact ⟨fun fell => zero ⟨_, List.prefix_rfl, fell⟩, reached.trans_eq last⟩

/-- The clock has been read, and the semaphore is where it was. -/
theorem read (awaits : armed.Awaits times machine) (lastTick : after.timing.lastTick = now)
    (specials : after.registers.specials = machine.registers.specials)
    (fetch : ∀ object, after.heap.fetch object Special.timerSemaphore
      = machine.heap.fetch object Special.timerSemaphore)
    (pending : ¬ armed.timing.deadline.Passed (times ++ [now]) →
      ¬ armed.timing.deadline.FallsOnZero (times ++ [now]) →
      after.timing.nextWakeup = (armed.timing.deadline.after (times ++ [now])).due)
    (spent : armed.timing.deadline.Passed (times ++ [now]) ∨
      armed.timing.deadline.FallsOnZero (times ++ [now]) → after.timing.nextWakeup = 0) :
    armed.Awaits (times ++ [now]) after where
  lastTick := by
    rw [lastTick, Deadline.after_concat]
    rfl
  pending := pending
  spent := spent
  semaphore := by
    rw [specials, fetch]
    exact awaits.semaphore
  nil := by
    rw [specials]
    exact awaits.nil

end Awaits

end Machine

namespace Run

open Machine

variable {armed machine : Machine} {times : List Int} {now : Int}

/-- The check that rings. -/
theorem checkInterruptsAt_rings (awaits : armed.Awaits times machine)
    (rings : armed.timing.deadline.Rings times now) :
    checkInterruptsAt now machine
      = (do attend now; disarm; signalSpecial Special.timerSemaphore) machine := by
  rw [checkInterruptsAt_eq]
  cases attended : attend now machine with
  | error stop between => exact (bind_error attended).trans (bind_error attended).symm
  | ok result between =>
    have due := awaits.due_iff_rings.mpr rings
    rw [← (attend_ensures machine now result between attended).1] at due
    rw [bind_ok attended, bind_ok attended]
    exact ring_rings due

/-- Any other check. -/
theorem checkInterruptsAt_quiet (awaits : armed.Awaits times machine)
    (quiet : ¬ armed.timing.deadline.Rings times now) :
    checkInterruptsAt now machine = attend now machine := by
  rw [checkInterruptsAt_eq]
  cases attended : attend now machine with
  | error stop between => exact bind_error attended
  | ok result between =>
    have due := awaits.due_iff_rings.not.mpr quiet
    rw [← (attend_ensures machine now result between attended).1] at due
    exact (bind_ok attended).trans (ring_quiet due)

/-- After a check the timer is where the reading has brought it. -/
theorem awaits_check (awaits : armed.Awaits times machine) (now : Int) :
    (checkInterruptsAt now).Ensures machine fun _ after => armed.Awaits (times ++ [now]) after := by
  have attended := attend_ensures machine now
  by_cases rings : armed.timing.deadline.Rings times now
  · have rung : (do attend now; disarm; signalSpecial Special.timerSemaphore : Run Unit).Ensures
        machine fun _ after => armed.Awaits (times ++ [now]) after := by
      refine attended.bind fun _ between ⟨timing, specials, fetch⟩ => ?_
      refine (ensures_modify between _).bindChange fun _ => ?_
      refine (Unalarming.signalSpecial _ (.refl _)).mono fun _ after ⟨leaves, _⟩ => ?_
      refine awaits.read ?_ (leaves.specials.trans specials)
        (fun object => (leaves.fetch object).trans (fetch object))
        (fun early => absurd (Deadline.passed_concat.mpr (.inr rings.reached)) early) fun _ => ?_
      · rw [leaves.timing]
        exact (congrArg Timing.lastTick timing).trans Timing.lastTick_tick
      · rw [leaves.timing]
    intro result after ended
    exact rung result after ((checkInterruptsAt_rings awaits rings).symm.trans ended)
  · intro result after ended
    rcases attended result after ((checkInterruptsAt_quiet awaits rings).symm.trans ended) with
      ⟨timing, specials, fetch⟩
    refine awaits.read ?_ specials fetch (fun early zero => ?_) fun ended => ?_
    · rw [timing]
      exact Timing.lastTick_tick
    · rw [timing]
      exact awaits.tick_pending (fun passed => early (Deadline.passed_concat.mpr (.inl passed))) zero
    · rw [timing]
      refine awaits.tick_spent ?_
      by_contra unspent
      rw [not_or] at unspent
      have passed := ended.resolve_right unspent.2
      exact rings ⟨unspent.1, (Deadline.passed_concat.mp passed).resolve_left unspent.1, unspent.2⟩

/-- However long programs run, the timer waits for the time that it was armed with. -/
theorem awaits_of_watched (watched : armed.Watched times machine) : armed.Awaits times machine := by
  induction watched with
  | start => exact .start armed
  | work _ same induction => exact induction.work same
  | check _ now ended induction => exact awaits_check induction now () _ ended

/-! ## Arming -/

theorem signalSpecial_of_fetch {index : Nat} {semaphore : Value}
    (slot : machine.heap.fetch machine.registers.specials.array index = .ok semaphore)
    (real : semaphore ≠ machine.registers.specials.nil) :
    signalSpecial index machine = signal semaphore machine := by
  have found : specialObject index machine = .ok semaphore machine :=
    (bind_ok getRegisters_apply).trans (fetch_ok slot)
  refine (bind_ok found).trans ((bind_ok getNil_apply).trans ?_)
  rw [if_pos real]

/-- The primitive finds a semaphore and a time, and keeps both for the timer; there is no time
to wait for without a semaphore. -/
theorem signalAt_arms (machine : Machine) (count : Nat) :
    (Reply.signalAt count).Ensures machine fun answered after => answered = true →
      count = 2 ∧ ∃ semaphore tick, machine.Operand 1 semaphore ∧ machine.Operand 0 (.small tick) ∧
        after.timing.deadline = ⟨machine.timing.lastTick,
          if semaphore = machine.registers.specials.nil then 0 else tick.val⟩ ∧
        after.heap.fetch after.registers.specials.array Special.timerSemaphore = .ok semaphore ∧
        after.registers.specials = machine.registers.specials := by
  have refused {post : Bool → Machine → Prop} (between : Machine) :
      (pure false : Run Bool).Ensures between fun answered after =>
        answered = true → post answered after := .pure fun answered => nomatch answered
  unfold Reply.signalAt
  split
  · exact refused machine
  · rename_i two
    obtain rfl : count = 2 := not_not.mp two
    refine (argument_finds machine 2 0).bind ?_
    rintro semaphore _ ⟨-, receiver, rfl⟩
    refine (argument_finds _ 2 1).bind ?_
    rintro value asked ⟨-, time, rfl⟩
    cases value with
    | object slot => exact refused asked
    | small tick =>
      dsimp only [Value.int?]
      split
      · exact refused asked
      · refine (ensures_getRegisters asked).bindExactly ?_
        refine (ensures_store asked _ _ _).bind fun _ stored ⟨held, same⟩ => ?_
        refine (ensures_modify stored _).bindChange fun _ => ?_
        refine (ensures_drop _ _).bindChange fun _ => .pure fun _ => ⟨rfl, semaphore, tick, ?_⟩
        subst same
        exact ⟨receiver, time, rfl, held, rfl⟩

/-- A timer is armed and looked after by any number of checks, with anything in between that
does not touch it. The first check to find the time reached, and no other, signals the
semaphore: the time that was asked for, carried along wherever the clock went back. This is so
unless the time is zero or comes to be zero by then; the signal is then lost. Nil instead of a
semaphore disarms the timer. -/
theorem timer_rings_once {send : Reply.Sender} (arms : respond send 136 machine = .ok true armed) :
    machine.registers.argumentCount = 2 ∧ ∃ semaphore tick,
      machine.Operand 1 semaphore ∧ machine.Operand 0 (.small tick) ∧
      ∀ times later, armed.Watched times later → ∀ now,
        let deadline : Deadline := ⟨machine.timing.lastTick, tick.val⟩
        (semaphore ≠ machine.registers.specials.nil → deadline.Rings times now →
          checkInterruptsAt now later = (do attend now; disarm; signal semaphore) later) ∧
        (semaphore = machine.registers.specials.nil ∨ ¬ deadline.Rings times now →
          checkInterruptsAt now later = attend now later) := by
  have named : Primitive.ofNumber? 136 = some .signalAt := rfl
  rcases signalAt_arms machine _ true armed (run_of_respond named (by decide) arms) rfl with
    ⟨two, semaphore, tick, receiver, time, set, held, specials⟩
  refine ⟨two, semaphore, tick, receiver, time, fun times later watched now => ?_⟩
  have awaits := awaits_of_watched watched
  constructor
  · intro real rings
    rw [if_neg real] at set
    rw [checkInterruptsAt_rings awaits (set ▸ rings)]
    cases attended : attend now later with
    | error stop between => rw [bind_error attended, bind_error attended]
    | ok result between =>
      rcases attend_ensures later now result between attended with ⟨-, kept, fetch⟩
      rw [bind_ok attended, bind_ok attended]
      refine signalSpecial_of_fetch ?_ ?_
      · rw [kept, fetch, awaits.semaphore]
        exact held
      · rw [kept, awaits.nil, specials]
        exact real
  · intro quiet
    refine checkInterruptsAt_quiet awaits fun rings => ?_
    rcases quiet with disarmed | quiet
    · rw [set, if_pos disarmed] at rings
      exact rings.armed (Deadline.fallsOnZero_of_due rfl)
    · by_cases disarmed : semaphore = machine.registers.specials.nil
      · rw [set, if_pos disarmed] at rings
        exact rings.armed (Deadline.fallsOnZero_of_due rfl)
      · rw [set, if_neg disarmed] at rings
        exact quiet rings

/-- A machine that is about to arm its timer with a semaphore. -/
def alarmMachine (tick : Value) : Machine :=
  let nil : Value := .object 0
  let machine := sampleMachine
    [sampleNode .zero #[], sampleNode .zero (Array.replicate Special.count nil),
      sampleNode .zero #[nil, nil, .zero], sampleNode .zero #[], sampleNode .zero #[],
      sampleNode .zero #[], sampleMethod 0 [] #[120],
      sampleNode .zero #[nil, nil, nil, .object 6, nil, .object 8, .object 8, .object 2, tick],
      sampleNode (.object 1) #[]]
    10 nil
  { machine with
    registers.specials.array := .object 1
    registers.sp := 8
    registers.argumentCount := 2 }

/-- A timer that is armed for the time five rings when that time is there; one that is armed for
the time zero never rings. -/
theorem timer_rings_alarmMachine :
    let armed := (respond (sendToClass 1) 136).left (alarmMachine (.ofInt 5))
    let mute := (respond (sendToClass 1) 136).left (alarmMachine (.ofInt 0))
    respond (sendToClass 1) 136 (alarmMachine (.ofInt 5)) = .ok true armed ∧
      respond (sendToClass 1) 136 (alarmMachine (.ofInt 0)) = .ok true mute ∧
      checkInterruptsAt 5 armed = (do attend 5; disarm; signal (.object 2)) armed ∧
      ∀ times later, mute.Watched times later → ∀ now,
        checkInterruptsAt now later = attend now later := by
  intro armed mute
  have rings : respond (sendToClass 1) 136 (alarmMachine (.ofInt 5)) = .ok true armed :=
    ended?_eq_some.mp (by decide +kernel)
  have mutes : respond (sendToClass 1) 136 (alarmMachine (.ofInt 0)) = .ok true mute :=
    ended?_eq_some.mp (by decide +kernel)
  refine ⟨rings, mutes, ?_, fun times later watched now => ?_⟩
  · rcases timer_rings_once rings with ⟨-, semaphore, tick, receiver, time, checks⟩
    have found : (alarmMachine (.ofInt 5)).Operand 1 (.object 2) := ⟨by decide, by decide +kernel⟩
    have five : (alarmMachine (.ofInt 5)).Operand 0 (.ofInt 5) := ⟨by decide, by decide +kernel⟩
    cases Except.ok.inj (receiver.2.symm.trans found.2)
    cases Except.ok.inj (time.2.symm.trans five.2)
    refine (checks [] armed .start 5).1 (by decide) ⟨Deadline.not_passed_nil, ?_, ?_⟩
    · exact (by decide : (5 : Int) ≤ 5)
    · rw [Deadline.fallsOnZero_concat, Deadline.fallsOnZero_nil]
      exact (by decide : ¬ ((5 : Int) = 0 ∨ (5 : Int) = 0))
  · rcases timer_rings_once mutes with ⟨-, semaphore, tick, receiver, time, checks⟩
    have zero : (alarmMachine (.ofInt 0)).Operand 0 (.ofInt 0) := ⟨by decide, by decide +kernel⟩
    cases Except.ok.inj (time.2.symm.trans zero.2)
    refine (checks times later watched now).2 (.inr fun rings => ?_)
    exact rings.armed (Deadline.fallsOnZero_of_due rfl)

end Run

end Smalltalk

import Smalltalk.Proofs.Machine.Surroundings
import Smalltalk.Proofs.Scheduler.Alarm

namespace Smalltalk

/-! The countdown follows the clock. However the clock runs and wherever it goes back, the
countdown starts above the floor less one decrement, and every check that comes too soon raises
its start by one increment at most. It lets exactly so many calls pass before the next check. The
time of the next poll for input lies an interval after the last one, and goes back with the
clock. -/

/-- The number of checks that came sooner than wanted after the one before. The latest is first
among the times, and the start counts as a check at time zero. -/
def soonChecks (target : Int) : (times : List Int) → Nat
  | [] => 0
  | now :: earlier => soonChecks target earlier + if now - earlier.headD 0 < target then 1 else 0

/-- What the next poll waits for after checks at some times, the latest first. The first check
that reaches the time polls, and puts it ahead by an interval. -/
def Deadline.ofPoll (interval : Int) : (times : List Int) → Deadline
  | [] => ⟨0, 0⟩
  | now :: earlier =>
    let deadline := (ofPoll interval earlier).advance now
    if deadline.due ≤ now then { deadline with due := now + interval } else deadline

theorem Deadline.last_ofPoll (interval : Int) (times : List Int) :
    (ofPoll interval times).last = times.headD 0 := by
  cases times with
  | nil => rfl
  | cons now earlier =>
    rw [ofPoll]
    split <;> rfl

namespace Timing

variable {config : Config} {timing : Timing} {times : List Int} {passed : Nat} {now : Int}

/-- What the next poll waits for. -/
def pollDeadline (timing : Timing) : Deadline := ⟨timing.lastTick, timing.nextPoll⟩

theorem nextPoll_rebase :
    (timing.rebase now).nextPoll = (timing.pollDeadline.advance now).due := by
  rw [rebase]
  split
  · next back => exact (if_pos back).symm
  · next ahead => exact (if_neg ahead).symm

/-- A check sets the countdown and the times, polls when the time for that is reached, and leaves
the rates alone. -/
theorem tick_eq (timing : Timing) (now : Int) :
    timing.tick now =
      let due := (timing.pollDeadline.advance now).due
      let reset := timing.adjustedReset now
      (decide (due ≤ now), { timing with
        counter := reset
        reset
        lastTick := now
        nextPoll := if due ≤ now then now + timing.pollInterval else due
        nextWakeup := (timing.rebase now).nextWakeup }) := by
  have reset : (timing.rebase now).adjustedReset now = timing.adjustedReset now := by
    rw [rebase]
    split <;> rfl
  have rates : timing.rebase now = { timing with
      nextPoll := (timing.rebase now).nextPoll
      nextWakeup := (timing.rebase now).nextWakeup } := by
    rw [rebase]
    split <;> rfl
  rw [tick, ← nextPoll_rebase]
  dsimp only
  rw [reset]
  generalize timing.rebase now = rebased at rates
  rw [rates]
  dsimp only
  split
  · next due => simp only [due, decide_true]
  · next early => simp only [early, decide_false]

/-- A check does not ask how far the countdown has come. -/
theorem tick_withCounter (timing : Timing) (counter now : Int) :
    { timing with counter }.tick now = timing.tick now := by
  have wakeup : ({ timing with counter }.rebase now).nextWakeup
      = (timing.rebase now).nextWakeup := by
    rw [rebase, rebase]
    split <;> rfl
  rw [tick_eq, tick_eq, wakeup]
  rfl

/-! ## The feedback -/

/-- What the checks so far, and the calls since then that only counted down, have made of the
timing of a configuration. -/
structure Follows (config : Config) (times : List Int) (passed : Nat) (timing : Timing) : Prop where
  rates : timing = { ofConfig config with
    counter := timing.counter
    reset := timing.reset
    lastTick := timing.lastTick
    nextPoll := timing.nextPoll
    nextWakeup := timing.nextWakeup }
  poll : timing.pollDeadline = .ofPoll config.pollInterval times
  counter : timing.counter = if times = [] then 0 else timing.reset - passed
  passed_le : passed ≤ timing.reset.toNat
  above : config.interruptResetFloor - config.interruptResetDecrement < timing.reset
  below : timing.reset ≤ config.interruptResetFloor +
    config.interruptResetIncrement * soonChecks config.interruptTarget times

namespace Follows

theorem start (decrement : 0 < config.interruptResetDecrement) :
    Follows config [] 0 (ofConfig config) where
  rates := rfl
  poll := rfl
  counter := rfl
  passed_le := Nat.zero_le _
  above := by simp only [ofConfig]; omega
  below := by simp [ofConfig, soonChecks]

theorem lastTick (follows : Follows config times passed timing) :
    timing.lastTick = times.headD 0 := by
  have last := congrArg Deadline.last follows.poll
  rwa [Deadline.last_ofPoll] at last

/-- The time of the timer has nothing to do with it. -/
theorem withWakeup (follows : Follows config times passed timing) (nextWakeup : Int) :
    Follows config times passed { timing with nextWakeup } where
  rates := by
    rw [follows.rates]
  poll := follows.poll
  counter := follows.counter
  passed_le := follows.passed_le
  above := follows.above
  below := follows.below

/-- A check moves the start of the countdown up by an increment, down by a decrement, or to the
floor. -/
theorem tick (follows : Follows config times passed timing)
    (increment : 0 ≤ config.interruptResetIncrement)
    (decrement : 0 < config.interruptResetDecrement) (now : Int) :
    Follows config (now :: times) 0 (timing.tick now).2 := by
  have floor_eq : timing.floor = config.interruptResetFloor := congrArg Timing.floor follows.rates
  have increment_eq := congrArg Timing.increment follows.rates
  have decrement_eq := congrArg Timing.decrement follows.rates
  have target_eq := congrArg Timing.target follows.rates
  have interval_eq := congrArg Timing.pollInterval follows.rates
  dsimp only [ofConfig] at increment_eq decrement_eq target_eq interval_eq
  have above := follows.above
  have below := follows.below
  have raised : 0 ≤ config.interruptResetIncrement *
      (soonChecks config.interruptTarget times : Int) := Int.mul_nonneg increment (by omega)
  rw [tick_eq]
  refine ⟨by rw [follows.rates], ?_, ?_, Nat.zero_le _, ?_, ?_⟩
  · rw [Deadline.ofPoll, ← follows.poll, ← interval_eq, pollDeadline]
    dsimp only
    split <;> rfl
  · dsimp only
    rw [if_neg (List.cons_ne_nil _ _), Int.natCast_zero, Int.sub_zero]
  · dsimp only
    rw [adjustedReset, increment_eq, decrement_eq, floor_eq]
    split
    · omega
    · split <;> omega
  · dsimp only
    rw [adjustedReset, increment_eq, decrement_eq, floor_eq, target_eq, soonChecks,
      ← follows.lastTick]
    split
    · rw [Int.natCast_add, Int.mul_add, Int.natCast_one, Int.mul_one]
      omega
    · rw [Nat.add_zero]
      split <;> omega

/-- A call that counts down is one of those that the countdown was started for. -/
theorem pass (follows : Follows config times passed timing) (counting : 0 < timing.counter) :
    Follows config times (passed + 1) { timing with counter := timing.counter - 1 } := by
  have checked : times ≠ [] := by
    intro start
    rw [follows.counter, if_pos start] at counting
    exact absurd counting (by decide)
  have counter := follows.counter
  rw [if_neg checked] at counter
  refine ⟨by rw [follows.rates], follows.poll, ?_, ?_, follows.above, follows.below⟩
  · rw [if_neg checked]
    dsimp only
    omega
  · dsimp only
    omega

end Follows

end Timing

/-! ## Checks -/

/-- A machine has taken note of the time, and polled if that was due. Since then at most the time
that the timer waits for has changed, of the timing and the screen. -/
def Machine.Ticked (before : Machine) (now : Int) (after : Machine) : Prop :=
  (∃ nextWakeup, after.timing = { (before.timing.tick now).2 with nextWakeup }) ∧
    after.screen = if (before.timing.tick now).1 then before.screen.poll else before.screen

namespace Run

variable {α β : Type} {before machine : Machine} {now : Int}

theorem tick_apply (now : Int) (machine : Machine) :
    tick now machine = .ok () { machine with
      timing := (machine.timing.tick now).2
      screen := if (machine.timing.tick now).1 then machine.screen.poll else machine.screen } := rfl

/-- What holds at the start, and is kept by both parts, holds of what they leave. -/
theorem left_bind_of {good : Machine → Prop} {run : Run α} {next : α → Run β}
    (holds : good machine) (first : ∀ machine, good machine → good (run.left machine))
    (second : ∀ result machine, good machine → good ((next result).left machine)) :
    good ((run >>= next).left machine) := by
  refine left_bind (first machine holds) fun result after ended => second result after ?_
  rw [← left_of_ok ended]
  exact first machine holds

theorem Internal.ticked {run : Run α} (internal : Internal run) (machine : Machine)
    (ticked : before.Ticked now machine) : before.Ticked now (run.left machine) := by
  rcases internal machine with ⟨heap, registers, same⟩
  rw [same]
  exact ticked

theorem takeWakeup_ticked (machine : Machine) (ticked : before.Ticked now machine) :
    before.Ticked now ((takeWakeup now).left machine) := by
  rcases ticked with ⟨⟨nextWakeup, timing⟩, screen⟩
  rw [left_of_ok (takeWakeup_apply now machine), Timing.takeWakeup]
  split
  · exact ⟨⟨0, by rw [timing]⟩, screen⟩
  · exact ⟨⟨nextWakeup, timing⟩, screen⟩

theorem signalsSpecial_internal (condition : Bool) (index : Nat) :
    Internal (if condition then signalSpecial index else pure ()) := by
  split
  · exact .signalSpecial
  · exact .pure

/-- Besides taking note of the time, a check signals semaphores and disarms the timer. -/
theorem checkInterruptsAt_ticked (now : Int) (machine : Machine) :
    machine.Ticked now ((checkInterruptsAt now).left machine) := by
  have attended : machine.Ticked now ((attend now).left machine) := by
    refine left_bind ⟨⟨_, rfl⟩, rfl⟩ fun _ ticked ended => ?_
    obtain rfl : _ = ticked := left_of_ok ended
    exact left_bind_of ⟨⟨_, rfl⟩, rfl⟩ (fun _ ticked => ticked) fun interrupted =>
      (signalsSpecial_internal interrupted _).ticked
  rw [checkInterruptsAt_eq]
  refine left_bind attended fun _ between ended => ?_
  rw [left_of_ok ended] at attended
  exact left_bind_of attended takeWakeup_ticked fun expired =>
    (signalsSpecial_internal expired _).ticked

/-- As long as the count has not run out, a call only counts. -/
theorem checkInterrupts_counting (counting : 0 < machine.timing.counter) :
    checkInterrupts machine =
      .ok () { machine with timing.counter := machine.timing.counter - 1 } := by
  rw [checkInterrupts, bind_ok get_apply]
  refine (bind_ok (modify_apply _)).trans ?_
  rw [if_neg (by omega)]
  rfl

/-- When the count has run out, a call is a check at the time of the clock. -/
theorem checkInterrupts_due (due : machine.timing.counter ≤ 0) :
    checkInterrupts machine =
      checkInterruptsAt (machine.clock.milliseconds % 536870912) machine := by
  rw [checkInterrupts, bind_ok get_apply]
  refine (bind_ok (modify_apply _)).trans ?_
  rw [if_pos due]
  refine (bind_ok rfl).trans ?_
  rw [checkInterruptsAt, bind_ok (tick_apply _ _), bind_ok (tick_apply _ _)]
  dsimp only
  rw [Timing.tick_withCounter]

end Run

/-! ## Check after check -/

namespace Machine

variable {config : Config} {times : List Int} {passed : Nat} {machine after : Machine}

/-- A machine that was started with a configuration, after checks at some times, the latest
first, whether they came to their end or not, and a number of calls since then that only counted
down. In between anything may happen that changes at most the timer. -/
inductive Paced (config : Config) : (times : List Int) → (passed : Nat) → Machine → Prop where
  | start {machine : Machine} (fresh : machine.timing = .ofConfig config) :
      Paced config [] 0 machine
  | work {times : List Int} {passed : Nat} {machine after : Machine}
      (earlier : Paced config times passed machine)
      (same : ∃ nextWakeup, after.timing = { machine.timing with nextWakeup }) :
      Paced config times passed after
  | check {times : List Int} {passed : Nat} {machine : Machine}
      (earlier : Paced config times passed machine) (now : Int) :
      Paced config (now :: times) 0 ((Run.checkInterruptsAt now).left machine)
  | pass {times : List Int} {passed : Nat} {machine : Machine}
      (earlier : Paced config times passed machine) (counting : 0 < machine.timing.counter) :
      Paced config times (passed + 1) (Run.checkInterrupts.left machine)

/-- Every check and every call keeps to what the configuration lays down. -/
theorem Paced.follows (paced : Paced config times passed machine)
    (increment : 0 ≤ config.interruptResetIncrement)
    (decrement : 0 < config.interruptResetDecrement) :
    Timing.Follows config times passed machine.timing := by
  induction paced with
  | start fresh =>
    rw [fresh]
    exact .start decrement
  | work _ same induction =>
    rcases same with ⟨nextWakeup, same⟩
    rw [same]
    exact induction.withWakeup nextWakeup
  | @check times passed machine _ now induction =>
    rcases (Run.checkInterruptsAt_ticked now machine).1 with ⟨nextWakeup, same⟩
    rw [same]
    exact (induction.tick increment decrement now).withWakeup nextWakeup
  | pass _ counting induction =>
    rw [Run.left_of_ok (Run.checkInterrupts_counting counting)]
    exact induction.pass counting

/-- After every check the countdown stands at its start, which is above the floor less a
decrement and exceeds the floor by at most one increment for every check that came too soon.
Exactly so many calls then only count down, and the next one is a check at the time of the clock.
A check asks the screen for input if and only if the time for that is reached; the time lies an
interval after the last poll, and keeps its distance from a clock that goes back. -/
theorem countdown_follows_clock (config : Config)
    (increment : 0 ≤ config.interruptResetIncrement)
    (decrement : 0 < config.interruptResetDecrement)
    {times : List Int} {passed : Nat} {machine : Machine}
    (paced : Paced config times passed machine) :
    (times ≠ [] →
      machine.timing.counter = machine.timing.reset - passed ∧
      passed ≤ machine.timing.reset.toNat ∧
      config.interruptResetFloor - config.interruptResetDecrement < machine.timing.reset ∧
      machine.timing.reset ≤ config.interruptResetFloor +
        config.interruptResetIncrement * soonChecks config.interruptTarget times) ∧
    (Run.checkInterrupts machine =
      if times ≠ [] ∧ passed < machine.timing.reset.toNat then
        .ok () { machine with timing.counter := machine.timing.counter - 1 }
      else Run.checkInterruptsAt (machine.clock.milliseconds % 536870912) machine) ∧
    ∀ now,
      let due := ((Deadline.ofPoll config.pollInterval times).advance now).due
      let checked := (Run.checkInterruptsAt now).left machine
      checked.screen = (if due ≤ now then machine.screen.poll else machine.screen) ∧
        checked.timing.nextPoll = if due ≤ now then now + config.pollInterval else due := by
  have follows := paced.follows increment decrement
  have counter := follows.counter
  refine ⟨fun checked => ?_, ?_, fun now => ?_⟩
  · rw [if_neg checked] at counter
    exact ⟨counter, follows.passed_le, follows.above, follows.below⟩
  · split
    · next counting =>
      rw [if_neg counting.1] at counter
      exact Run.checkInterrupts_counting (by omega)
    · next ended =>
      refine Run.checkInterrupts_due ?_
      rw [counter]
      split
      · exact le_rfl
      · next checked =>
        have last := follows.passed_le
        have through : ¬passed < machine.timing.reset.toNat := fun more => ended ⟨checked, more⟩
        omega
  · intro due checked
    rcases Run.checkInterruptsAt_ticked now machine with ⟨⟨nextWakeup, timing⟩, screen⟩
    have interval : machine.timing.pollInterval = config.pollInterval :=
      congrArg Timing.pollInterval follows.rates
    rw [Timing.tick_eq, follows.poll] at timing screen
    refine ⟨by simpa using screen, ?_⟩
    rw [show checked.timing = _ from timing, interval]

/-- A first check after a millisecond polls, and the calls that follow count down. -/
theorem countdown_follows_clock_first_check :
    let fresh := Run.alarmMachine (.ofInt 5)
    let checked := (Run.checkInterruptsAt 1).left fresh
    Paced {} [] 0 fresh ∧ Paced {} [1] 0 checked ∧ checked.screen = fresh.screen.poll ∧
      checked.timing.reset ≤ 1010 ∧ Run.checkInterrupts checked =
        .ok () { checked with timing.counter := checked.timing.counter - 1 } := by
  intro fresh checked
  have started : Paced {} [] 0 fresh := .start rfl
  have first := countdown_follows_clock {} (by decide) (by decide) started
  have later := countdown_follows_clock {} (by decide) (by decide) (started.check 1)
  rcases later.1 (by decide) with ⟨-, -, above, below⟩
  refine ⟨started, started.check 1, (first.2.2 1).1, below, ?_⟩
  have many : 0 < checked.timing.reset.toNat := by
    have positive : (0 : Int) < checked.timing.reset := lt_trans (by decide) above
    omega
  exact later.2.1.trans (if_pos ⟨by decide, many⟩)

end Machine

end Smalltalk

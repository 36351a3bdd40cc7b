import Smalltalk.Config

namespace Smalltalk

/-! A countdown decides when the clock is looked at. The number it starts from
follows the clock: it grows when checks come sooner than wanted and shrinks when
they come later, down to a floor. A check also says whether it is time to poll
for input and whether the timer has run out. The clock may wrap around; what is
still to come then keeps its distance. -/

/-- The countdown, the times of the last check, the next poll and the timer, and
the rates of the feedback. A timer of zero is not armed. -/
structure Timing where
  counter : Int := 0
  reset : Int
  lastTick : Int := 0
  nextPoll : Int := 0
  nextWakeup : Int := 0
  floor : Int
  increment : Int
  decrement : Int
  target : Int
  pollInterval : Int
deriving DecidableEq, Inhabited

namespace Timing

def ofConfig (config : Config) : Timing :=
  { reset := config.interruptResetFloor
    floor := config.interruptResetFloor
    increment := config.interruptResetIncrement
    decrement := config.interruptResetDecrement
    target := config.interruptTarget
    pollInterval := config.pollInterval }

/-- Keep the distance of what is to come when the clock has wrapped. -/
def rebase (timing : Timing) (now : Int) : Timing :=
  if now < timing.lastTick then
    { timing with
      nextPoll := now + (timing.nextPoll - timing.lastTick)
      nextWakeup :=
        if timing.nextWakeup = 0 then 0 else now + (timing.nextWakeup - timing.lastTick) }
  else
    timing

/-- The next start of the countdown. -/
def adjustedReset (timing : Timing) (now : Int) : Int :=
  if now - timing.lastTick < timing.target then timing.reset + timing.increment
  else if timing.reset ≤ timing.floor then timing.floor
  else timing.reset - timing.decrement

/-- A check at time `now`. Answers whether to poll for input. -/
def tick (timing : Timing) (now : Int) : Bool × Timing :=
  let timing := timing.rebase now
  let reset := timing.adjustedReset now
  let checked := { timing with reset, counter := reset, lastTick := now }
  if checked.nextPoll ≤ now then
    (true, { checked with nextPoll := now + checked.pollInterval })
  else
    (false, checked)

/-- Whether the timer has run out; it is then no longer armed. -/
def takeWakeup (timing : Timing) (now : Int) : Bool × Timing :=
  if timing.nextWakeup ≠ 0 ∧ timing.nextWakeup ≤ now then
    (true, { timing with nextWakeup := 0 })
  else
    (false, timing)

example :
    let timing : Timing := { ofConfig {} with lastTick := 100, nextPoll := 10000 }
    (timing.tick 101).2.reset = 1010 := by decide

end Timing

/-- The readings of the clocks of the machine's surroundings: milliseconds since
the start and seconds since the beginning of 1901. They stand still unless the
surroundings move them. -/
structure Clock where
  milliseconds : Int := 0
  seconds : UInt32 := 2177452800
deriving DecidableEq, Inhabited

end Smalltalk

import Smalltalk.Machine.Scheduling

namespace Smalltalk

/-! On sends and backward jumps the machine counts down, and when the count has
run out it looks at the clock, lets input arrive, and signals the semaphores of
the interrupt key and of the timer. -/

namespace Run

/-- The clock as the image sees it: 29 bits of milliseconds. -/
def millisecondClock : Run Int := return (← get).clock.milliseconds % 536870912

/-- Signal a semaphore of the special objects array, if there is one. -/
def signalSpecial (index : Nat) : Run Unit := do
  let semaphore ← specialObject index
  if semaphore ≠ (← getNil) then signal semaphore

/-- Take note of the time and poll for input when it is due. -/
def tick (now : Int) : Run Unit :=
  modify fun machine =>
    let (polls, timing) := machine.timing.tick now
    { machine with timing, screen := if polls then machine.screen.poll else machine.screen }

/-- Whether the interrupt key was pressed since the last time. -/
def takeInterrupt : Run Bool :=
  modifyGet fun machine =>
    let (interrupted, input) := machine.input.takeInterrupt
    (interrupted, { machine with input })

/-- Whether the timer has run out. -/
def takeWakeup (now : Int) : Run Bool :=
  modifyGet fun machine =>
    let (expired, timing) := machine.timing.takeWakeup now
    (expired, { machine with timing })

/-- Look at what has happened up to a time. -/
def checkInterruptsAt (now : Int) : Run Unit := do
  tick now
  if ← takeInterrupt then signalSpecial Special.interruptSemaphore
  if ← takeWakeup now then signalSpecial Special.timerSemaphore

/-- Count down, and look at the clock when the count has run out. -/
def checkInterrupts : Run Unit := do
  let counter := (← get).timing.counter
  modify fun machine => { machine with timing.counter := counter - 1 }
  if counter ≤ 0 then checkInterruptsAt (← millisecondClock)

end Run

end Smalltalk

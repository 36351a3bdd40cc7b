namespace Smalltalk

/-! Events from the mouse and the keyboard reach the machine through a queue.
Keys wait in order until they are read, up to a limit; the key that interrupts
the user process goes past the queue and only raises a flag. -/

/-- The position of the mouse and the state of buttons and modifier keys. -/
structure InputSnapshot where
  x : Int := 0
  y : Int := 0
  buttons : UInt32 := 0
  modifiers : UInt32 := 0
deriving DecidableEq, Inhabited

/-- Keys that wait to be read, oldest first, and what else has happened. -/
structure InputQueue where
  limit : Nat
  snapshot : InputSnapshot := {}
  keys : List UInt32 := []
  /-- Something has happened since the last wait. -/
  pending : Bool := false
  /-- The interrupt key was pressed and not yet noticed. -/
  interrupted : Bool := false
deriving DecidableEq, Inhabited

/-- What a device can report. -/
inductive InputEvent where
  | moved (x y : Int)
  | buttons (mask : UInt32)
  | modifiers (mask : UInt32)
  | key (character : UInt32)
deriving DecidableEq

namespace InputQueue

/-- The three mouse buttons. -/
def buttonMask : UInt32 := 7

/-- The code of the interrupt key: a period with the command key. -/
def interruptCode : UInt32 := 2094

/-- A key stroke with the modifier keys above its character. -/
def keyCode (modifiers character : UInt32) : UInt32 :=
  (character &&& (0xFF : UInt32)) ||| ((modifiers >>> (3 : UInt32)) <<< (8 : UInt32))

/-- Store a key unless the queue is at its limit. -/
def enqueue (queue : InputQueue) (code : UInt32) : InputQueue :=
  if queue.keys.length < queue.limit then { queue with keys := queue.keys ++ [code] } else queue

/-- Take note of an event. -/
def receive (queue : InputQueue) (event : InputEvent) : InputQueue :=
  let noticed : InputQueue :=
    match event with
    | .moved x y => { queue with snapshot := { queue.snapshot with x, y } }
    | .buttons mask => { queue with snapshot.buttons := mask &&& buttonMask }
    | .modifiers mask => { queue with snapshot.modifiers := mask }
    | .key character =>
      let code := keyCode queue.snapshot.modifiers character
      if code = interruptCode then { queue with interrupted := true } else queue.enqueue code
  { noticed with pending := true }

/-- The oldest key that waits. -/
def peekKey (queue : InputQueue) : Option UInt32 := queue.keys.head?

/-- Take the oldest key that waits. -/
def nextKey (queue : InputQueue) : Option UInt32 × InputQueue :=
  (queue.keys.head?, { queue with keys := queue.keys.tail })

/-- Whether the interrupt key was pressed; asking lowers the flag. -/
def takeInterrupt (queue : InputQueue) : Bool × InputQueue :=
  (queue.interrupted, { queue with interrupted := false })

/-- Whether anything has happened since the last time this was asked. -/
def takePending (queue : InputQueue) : Bool × InputQueue :=
  (queue.pending, { queue with pending := false })

example : keyCode 24 120 = 0x378 := by decide
example : ((InputQueue.receive { limit := 8, snapshot.modifiers := 64 } (.key 46)).interrupted)
    = true := by decide

end InputQueue

end Smalltalk

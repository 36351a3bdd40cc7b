import Smalltalk.Machine.Interrupts

namespace Smalltalk

/-! Activation gives a method a context of its own: it takes the receiver and
the arguments off the stack of the sender into the frame of the new context. -/

namespace Run

/-- Make a context for the method found and make it the active one. -/
def activateMethod : Run Unit := do
  let registers ← getRegisters
  let method := registers.newMethod
  let header ← methodHeader method
  let context ← newContext header.needsLargeFrame
  let registers ← getRegisters
  let count := registers.argumentCount
  store context ContextField.sender registers.activeContext
  store context ContextField.pc (← encodePc method 0)
  store context ContextField.stackPointer (.ofInt header.temporaryCount)
  store context ContextField.method method
  copyOperands context (count + 1) ContextField.receiver
  drop (count + 1)
  modifyRegisters fun registers => { registers with reclaimable := registers.reclaimable + 1 }
  activate context
  checkInterrupts

end Run

end Smalltalk

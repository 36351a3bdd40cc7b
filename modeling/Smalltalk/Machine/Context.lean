import Smalltalk.Machine.Stack

namespace Smalltalk

/-! Contexts are the frames of running methods and blocks. A context that is not
active keeps its program counter as a byte offset into the whole method, counted
from one, and its stack pointer as the number of slots in use. -/

namespace Run

/-! ## The program counter as contexts keep it -/

/-- What a context keeps for the byte at `pc`. Counts are cut to 32 bits before
they become small integers. -/
def encodePc (method : Value) (pc : Nat) : Run Value := do
  let header ← methodHeader method
  return .ofWrapped (pc + header.firstPc)

/-- The byte that a kept program counter stands for. -/
def decodePc (method : Value) (encoded : Int) : Run Nat := do
  let header ← methodHeader method
  let pc := encoded - header.firstPc
  if pc < 0 then fail (.pcOutOfRange 0)
  return pc.toNat

/-! ## Moving between contexts -/

/-- The home of a context: a block context holds it, a method context is its
own. -/
def homeOf (context : Value) : Run Value := do
  if (← fetch context ContextField.method).isSmall then
    fetch context BlockField.home
  else
    return context

/-- Make a context the active one. -/
def loadContext (context : Value) : Run Unit := do
  let homeContext ← homeOf context
  let method ← fetch homeContext ContextField.method
  let receiver ← fetch homeContext ContextField.receiver
  let encodedPc ← fetchInt context ContextField.pc
  let depth ← fetchInt context ContextField.stackPointer
  let pc ← decodePc method encodedPc
  modifyRegisters fun registers =>
    { registers with
      pc
      sp := (ContextField.frame - 1 + depth).toNat
      activeContext := context
      homeContext
      method
      receiver }

/-- Write the program counter and the stack pointer back to the active
context. -/
def saveContext : Run Unit := do
  let registers ← getRegisters
  let pc ← encodePc registers.method registers.pc
  let depth := Value.ofWrapped (registers.sp - (ContextField.frame - 1 : Nat))
  store registers.activeContext ContextField.pc pc
  store registers.activeContext ContextField.stackPointer depth

/-- Leave the active context for another one. -/
def activate (context : Value) : Run Unit := do
  saveContext
  loadContext context

/-! ## Making and recycling contexts -/

/-- Take a context from the free list of its size. -/
def takeFreeContext (large : Bool) : Run (Option Value) := do
  let registers ← getRegisters
  match if large then registers.freeLargeContexts else registers.freeContexts with
  | [] => return none
  | context :: rest =>
    set { ← get with
      registers :=
        if large then { registers with freeLargeContexts := rest }
        else { registers with freeContexts := rest } }
    return some context

/-- A method context filled with nil: one that is free, or a new one. -/
def newContext (large : Bool) : Run Value := do
  let nil ← getNil
  match ← takeFreeContext large with
  | some context =>
    discard <| object context
    modifyHeap (·.updateBody context (·.mapPointers (·.map fun _ => nil)))
    return context
  | none =>
    let config := (← get).config
    let frame := if large then config.largeFrameSize else config.smallFrameSize
    register
      { species := (← getRegisters).specials.methodContextClass
        format := Format.fixedIndexable
        body := .pointers (Array.replicate (ContextField.frame + frame) nil) }

/-- Put a method context that is no longer in use into the free list of its
size. -/
def recycle (context : Value) : Run Unit := do
  let machine ← get
  match machine.heap.get? context with
  | none => return
  | some object =>
    if object.species ≠ machine.registers.specials.methodContextClass then return
    let frame := object.pointerCount - ContextField.frame
    if frame = machine.config.smallFrameSize then
      modifyRegisters fun registers =>
        { registers with freeContexts := context :: registers.freeContexts }
    else if frame = machine.config.largeFrameSize then
      modifyRegisters fun registers =>
        { registers with freeLargeContexts := context :: registers.freeLargeContexts }

/-! ## Returning -/

/-- The contexts from `context` up to, and without, the target of a return. A
chain longer than the heap has objects never ends. -/
def contextsAbove (target : Value) : (budget : Nat) → (context : Value) → Run (List Value)
  | budget, context => do
    if context = target then return []
    if context = (← getNil) then fail (.brokenSenderChain target)
    match budget with
    | 0 => throw .endlessChain
    | budget + 1 =>
      let sender ← fetch context ContextField.sender
      return context :: (← contextsAbove target budget sender)

/-- Make a context unable to be returned to, and use it again if nobody else can
refer to it. -/
def retire (context : Value) : Run Unit := do
  let nil ← getNil
  discard <| fetch context ContextField.sender
  store context ContextField.sender nil
  store context ContextField.pc nil
  let registers ← getRegisters
  if 0 < registers.reclaimable then
    modifyRegisters fun registers => { registers with reclaimable := registers.reclaimable - 1 }
    recycle context

/-- Return a value to a context that is waiting for one, retiring every context
above it. -/
def returnTo (value target : Value) : Run Unit := do
  let nil ← getNil
  if target = nil then fail (.cannotReturn target)
  if (← fetch target ContextField.pc) = nil then fail (.cannotReturn target)
  let left ← contextsAbove target ((← getHeap).cells.size + 1) (← getRegisters).activeContext
  left.forM retire
  loadContext target
  push value

end Run

end Smalltalk

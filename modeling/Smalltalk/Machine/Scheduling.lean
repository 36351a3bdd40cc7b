import Smalltalk.Machine.Context

namespace Smalltalk

/-! Processes wait in linked lists: in the ready list of their priority or in a
semaphore. A process that is in a list knows which one; the active process is
in none. -/

namespace Run

/-- The value of the association that holds the scheduler. -/
def scheduler : Run Value := do
  fetch (← specialObject Special.schedulerAssociation) AssociationField.value

def activeProcess : Run Value := do
  fetch (← scheduler) SchedulerField.activeProcess

/-- Take up the suspended context of the active process. -/
def loadInitialContext : Run Unit := do
  let context ← fetch (← activeProcess) ProcessField.suspendedContext
  if context = (← getNil) then fail .noRunnableProcess
  loadContext context
  modifyRegisters fun registers => { registers with reclaimable := 0 }

/-- The priority of a process, at least one. -/
def priorityOf (process : Value) : Run Nat := do
  return max 1 (← fetchInt process ProcessField.priority).toNat

/-! ## Lists -/

def isEmptyList (list : Value) : Run Bool := do
  return (← fetch list ListField.firstLink) = (← getNil)

def addLast (link list : Value) : Run Unit := do
  if ← isEmptyList list then
    store list ListField.firstLink link
  else
    store (← fetch list ListField.lastLink) ProcessField.nextLink link
  store list ListField.lastLink link
  store link ProcessField.myList list

def removeFirst (list : Value) : Run Value := do
  let nil ← getNil
  let first ← fetch list ListField.firstLink
  let last ← fetch list ListField.lastLink
  if first = last then
    store list ListField.firstLink nil
    store list ListField.lastLink nil
  else
    store list ListField.firstLink (← fetch first ProcessField.nextLink)
  store first ProcessField.nextLink nil
  store first ProcessField.myList nil
  return first

/-- The ready lists, in the order of their priorities. -/
def readyLists : Run Value := do
  fetch (← scheduler) SchedulerField.processLists

/-- The ready list of a priority. -/
def readyList (priority : Nat) : Run Value := do
  fetch (← readyLists) (priority - 1)

/-! ## Switching -/

/-- Put a process at the end of the ready list of its priority. -/
def sleep (process : Value) : Run Unit := do
  let list ← readyList (← priorityOf process)
  addLast process list

/-- Suspend the active process in its context and go on with another one. -/
def transferTo (process : Value) : Run Unit := do
  let nil ← getNil
  let scheduler ← scheduler
  let suspended ← fetch scheduler SchedulerField.activeProcess
  saveContext
  store suspended ProcessField.suspendedContext (← getRegisters).activeContext
  store scheduler SchedulerField.activeProcess process
  let context ← fetch process ProcessField.suspendedContext
  store process ProcessField.suspendedContext nil
  loadContext context
  modifyRegisters fun registers => { registers with reclaimable := 0 }

/-- Let a process run: at once if its priority is above the active one's, else
when its turn comes. -/
def resume (process : Value) : Run Unit := do
  let active ← activeProcess
  let priority ← priorityOf process
  if (← priorityOf active) < priority then
    sleep active
    transferTo process
  else
    sleep process

/-- The first process of the first ready list that is not empty, searching down
from a priority. -/
def wakeFrom (lists : Value) : (priority : Nat) → Run Value
  | 0 => fail .noRunnableProcess
  | priority + 1 => do
    let list ← fetch lists priority
    if ← isEmptyList list then wakeFrom lists priority else removeFirst list

/-- Take the process that is to run next from its ready list. -/
def wakeHighestPriority : Run Value := do
  let lists ← readyLists
  wakeFrom lists ((← getHeap).pointerCount lists)

/-- Let another ready process of the same priority run. -/
def yieldProcess : Run Unit := do
  let active ← activeProcess
  let list ← readyList (← priorityOf active)
  unless ← isEmptyList list do
    sleep active
    transferTo (← wakeHighestPriority)

/-! ## Semaphores -/

/-- Resume the process that waits longest, or count the signal. -/
def signal (semaphore : Value) : Run Unit := do
  if ← isEmptyList semaphore then
    let excess ← fetchInt semaphore SemaphoreField.excessSignals
    store semaphore SemaphoreField.excessSignals (.ofInt (excess + 1))
  else
    resume (← removeFirst semaphore)

/-- Use up a counted signal, or make the active process wait. -/
def wait (semaphore : Value) : Run Unit := do
  let excess ← fetchInt semaphore SemaphoreField.excessSignals
  if 0 < excess then
    store semaphore SemaphoreField.excessSignals (.ofInt (excess - 1))
  else
    addLast (← activeProcess) semaphore
    transferTo (← wakeHighestPriority)

end Run

end Smalltalk

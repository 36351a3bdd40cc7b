import Smalltalk.Proofs.Frame.Rests
import Smalltalk.Proofs.Frame.Saved

namespace Smalltalk

/-! The lists in which processes wait have their links before the place where a context has
its frame, so the frame of the running method rests while the next process is chosen. The
switch itself saves the stack pointer in the context that is left and takes the one that is
kept in the context that is entered. -/

namespace Machine

variable {start middle after : Machine} {bottom : Nat}

/-- The stack pointer is the one that the active context keeps. -/
def Restored (machine : Machine) : Prop :=
  ∃ depth : Int, machine.heap.fetchInt machine.registers.activeContext ContextField.stackPointer
      = .ok depth ∧
    machine.registers.sp = (ContextField.frame - 1 + depth).toNat

/-- A context has been loaded after the frame that was active has been saved. -/
structure Switched (start : Machine) (bottom : Nat) (after : Machine) : Prop where
  consistent : after.heap.Consistent
  specials : after.registers.specials = start.registers.specials
  slots : start.heap.KeepsSlots after.heap start.registers.activeContext bottom
  restored : after.Restored
  saved : after.heap.fetch start.registers.activeContext ContextField.stackPointer
    = .ok (.ofWrapped (start.registers.sp - (ContextField.frame - 1 : Nat)))

end Machine

namespace Run

variable {start : Machine} {bottom : Nat}

/-- Only the second part of a computation counts. -/
theorem Ensures.later {α β : Type} {run : Run α} {next : α → Run β} {machine : Machine}
    {final : β → Machine → Prop}
    (second : ∀ result between, (next result).Ensures between final) :
    (run >>= next).Ensures machine final := by
  have any : run.Ensures machine fun _ _ => True := fun _ _ _ => trivial
  exact any.bind fun result between _ => second result between

/-! ## Lists

What lists, processes and contexts keep of their own lies before the frame. -/

section

variable {object value : Value}

@[grind ←]
theorem storeFirstLink_rests : Rested start bottom (store object ListField.firstLink value) :=
  storeLow_rests (by decide)

@[grind ←]
theorem storeLastLink_rests : Rested start bottom (store object ListField.lastLink value) :=
  storeLow_rests (by decide)

@[grind ←]
theorem storeNextLink_rests : Rested start bottom (store object ProcessField.nextLink value) :=
  storeLow_rests (by decide)

@[grind ←]
theorem storeMyList_rests : Rested start bottom (store object ProcessField.myList value) :=
  storeLow_rests (by decide)

@[grind ←]
theorem storeExcessSignals_rests :
    Rested start bottom (store object SemaphoreField.excessSignals value) :=
  storeLow_rests (by decide)

end

@[grind ←]
theorem scheduler_rests : Rested start bottom scheduler := by
  grind [scheduler]

@[grind ←]
theorem activeProcess_rests : Rested start bottom activeProcess := by
  grind [activeProcess]

@[grind ←]
theorem priorityOf_rests {process : Value} : Rested start bottom (priorityOf process) := by
  grind [priorityOf]

@[grind ←]
theorem isEmptyList_rests {list : Value} : Rested start bottom (isEmptyList list) := by
  grind [isEmptyList]

@[grind ←]
theorem addLast_rests {link list : Value} : Rested start bottom (addLast link list) := by
  grind [addLast]

@[grind ←]
theorem removeFirst_rests {list : Value} : Rested start bottom (removeFirst list) := by
  refine getNil_rests.bind fun nil => fetch_rests.bind fun first => fetch_rests.bind fun last => ?_
  split <;> grind

@[grind ←]
theorem readyLists_rests : Rested start bottom readyLists := by
  grind [readyLists]

@[grind ←]
theorem readyList_rests {priority : Nat} : Rested start bottom (readyList priority) := by
  grind [readyList]

@[grind ←]
theorem sleep_rests {process : Value} : Rested start bottom (sleep process) := by
  grind [sleep]

@[grind ←]
theorem wakeFrom_rests {lists : Value} {priority : Nat} :
    Rested start bottom (wakeFrom lists priority) := by
  induction priority with
  | zero => exact .fail
  | succ priority induction => grind [wakeFrom]

@[grind ←]
theorem wakeHighestPriority_rests : Rested start bottom wakeHighestPriority := by
  grind [wakeHighestPriority]

/-! ## Switching -/

variable {machine : Machine}

/-- A context that is loaded brings its stack pointer along. -/
theorem loadContext_restores (machine : Machine) (context : Value) :
    (loadContext context).Ensures machine fun _ after =>
      after.heap = machine.heap ∧ after.registers.specials = machine.registers.specials ∧
        after.registers.activeContext = context ∧ after.Restored := by
  refine (loadContext_loads context).mono ?_
  rintro _ _ ⟨_, _, _, _, _, depth, -, -, -, -, -, kept, rfl⟩
  exact ⟨rfl, rfl, rfl, depth, kept, rfl⟩

/-- So does one that is made active. -/
theorem activate_restores (machine : Machine) (context : Value) :
    (activate context).Ensures machine fun _ after =>
      after.registers.activeContext = context ∧ after.Restored :=
  .later fun _ saved => (loadContext_restores saved context).mono fun _ _ ended => ended.2.2

end Run

namespace Machine

/-- The frame rests, and its context keeps the stack pointer. -/
structure Saves (start : Machine) (bottom : Nat) (machine : Machine) : Prop
    extends start.Rests bottom machine where
  saved : machine.heap.fetch start.registers.activeContext ContextField.stackPointer
    = .ok (.ofWrapped (start.registers.sp - (ContextField.frame - 1 : Nat)))

theorem Saves.setField {start machine : Machine} {bottom : Nat} (saves : start.Saves bottom machine)
    (object : Value) {index : Nat} (value : Value) (low : index < ContextField.frame)
    (other : index ≠ ContextField.stackPointer) :
    start.Saves bottom { machine with heap := machine.heap.setField object index value } where
  toRests := saves.toRests.setField value fun _ => .inl low
  saved := (Heap.fetch_setField_other (.inr other)).trans saves.saved

theorem Saves.switched {start machine after : Machine} {bottom : Nat}
    (saves : start.Saves bottom machine) (heap : after.heap = machine.heap)
    (specials : after.registers.specials = machine.registers.specials)
    (restored : after.Restored) : start.Switched bottom after where
  consistent := heap ▸ saves.consistent
  specials := specials.trans saves.specials
  slots := heap ▸ saves.slots
  restored := restored
  saved := heap ▸ saves.saved

end Machine

namespace Run

variable {start machine : Machine} {bottom : Nat}

theorem saveContext_saves (rests : start.Rests bottom machine) :
    saveContext.Ensures machine fun _ => start.Saves bottom := by
  refine saveContext_writes.mono ?_
  rintro _ _ ⟨_, pc, -, -, rfl, -, atDepth⟩
  have low : start.Rests bottom { machine with
      heap := machine.heap.setField machine.registers.activeContext ContextField.pc pc } :=
    rests.setField pc fun _ => .inl (by decide)
  refine ⟨low.setField _ fun _ => .inl (by decide), ?_⟩
  rw [← rests.active, ← rests.sp]
  exact atDepth

/-- The process that is switched to is chosen, the frame is saved, and another context is
loaded. -/
theorem transferTo_switches (rests : start.Rests bottom machine) (process : Value) :
    (transferTo process).Ensures machine fun _ => start.Switched bottom := by
  refine (getNil_rests machine rests).bind fun nil _ ⟨rests, _⟩ => ?_
  refine (scheduler_rests _ rests).bind fun scheduler _ ⟨rests, _⟩ => ?_
  refine (fetch_rests _ rests).bind fun suspended _ ⟨rests, _⟩ => ?_
  refine (saveContext_saves rests).bind fun _ between saves => ?_
  refine (ensures_getRegisters between).bindExactly ?_
  refine (ensures_store _ _ _ _).bindTo fun _ _ => ?_
  refine (ensures_store _ _ _ _).bindTo fun _ _ => ?_
  refine (ensures_fetch _ _ _).bindTo fun context _ => ?_
  refine (ensures_store _ _ _ _).bindTo fun _ _ => ?_
  have context_low : ProcessField.suspendedContext < ContextField.frame := by decide
  have process_low : SchedulerField.activeProcess < ContextField.frame := by decide
  have kept := ((saves.setField suspended between.registers.activeContext context_low
    (by decide)).setField scheduler process process_low (by decide)).setField process nil
    context_low (by decide)
  refine (loadContext_restores _ context).bind fun _ loaded ⟨heap, specials, _, restored⟩ => ?_
  refine (ensures_modifyRegisters loaded _).mono ?_
  rintro _ _ rfl
  exact kept.switched heap specials restored

/-- The frame rests, or another process goes on. -/
def MaySwitch (start : Machine) (bottom : Nat) (run : Run Unit) : Prop :=
  ∀ machine, start.Rests bottom machine → run.Ensures machine fun _ after =>
    start.Rests bottom after ∨ start.Switched bottom after

namespace MaySwitch

@[grind ←]
theorem bind {α : Type} {run : Run α} {next : α → Run Unit} (first : Rested start bottom run)
    (second : ∀ result, MaySwitch start bottom (next result)) :
    MaySwitch start bottom (run >>= next) :=
  fun machine rests => (first machine rests).bind fun result after ended =>
    second result after ended.1

@[grind ←]
theorem andThen {run : Run Unit} {next : Unit → Run Unit} (first : Rested start bottom run)
    (second : MaySwitch start bottom (next ())) : MaySwitch start bottom (run >>= next) :=
  bind first fun _ => second

@[grind ←]
theorem of_rested {run : Run Unit} (rested : Rested start bottom run) :
    MaySwitch start bottom run :=
  fun machine rests => (rested machine rests).mono fun _ _ ended => .inl ended.1

end MaySwitch

@[grind ←]
theorem transferTo_maySwitch {process : Value} : MaySwitch start bottom (transferTo process) :=
  fun _ rests => (transferTo_switches rests process).mono fun _ _ => .inr

@[grind ←]
theorem resume_maySwitch {process : Value} : MaySwitch start bottom (resume process) := by
  grind [resume]

theorem yieldProcess_maySwitch : MaySwitch start bottom yieldProcess := by
  refine .bind activeProcess_rests fun active => .bind priorityOf_rests fun priority => ?_
  refine .bind readyList_rests fun list => .bind isEmptyList_rests fun empty => ?_
  cases empty
  · exact .andThen sleep_rests (.bind wakeHighestPriority_rests fun _ => transferTo_maySwitch)
  · exact .of_rested .pure

theorem signal_maySwitch {semaphore : Value} : MaySwitch start bottom (signal semaphore) := by
  refine .bind isEmptyList_rests fun empty => ?_
  cases empty
  · exact .bind removeFirst_rests fun _ => resume_maySwitch
  · exact .of_rested (fetchInt_rests.bind fun _ => storeExcessSignals_rests)

theorem wait_maySwitch {semaphore : Value} : MaySwitch start bottom (wait semaphore) := by
  refine .bind fetchInt_rests fun excess => ?_
  split
  · exact .of_rested storeExcessSignals_rests
  · refine .bind activeProcess_rests fun active => .andThen addLast_rests ?_
    exact .bind wakeHighestPriority_rests fun _ => transferTo_maySwitch

end Run

end Smalltalk

import Smalltalk.Machine.Interrupts
import Smalltalk.Proofs.Lookup.History

namespace Smalltalk

/-! Processes are objects. To signal a semaphore, and to switch to the process that it wakes,
changes the heap and the registers but nothing of what surrounds them: the clock and the
countdown, the devices and the counters are left as they were, also by a computation that stops
halfway. -/

/-- Apart from the heap and the registers the machine is the same. -/
def Machine.SameSurroundings (before after : Machine) : Prop :=
  ∃ heap registers, after = { before with heap, registers }

namespace Machine.SameSurroundings

variable {before middle after : Machine}

theorem refl (machine : Machine) : machine.SameSurroundings machine := ⟨_, _, rfl⟩

theorem trans (early : before.SameSurroundings middle) (late : middle.SameSurroundings after) :
    before.SameSurroundings after := by
  rcases early with ⟨_, _, rfl⟩
  rcases late with ⟨_, _, rfl⟩
  exact ⟨_, _, rfl⟩

end Machine.SameSurroundings

namespace Run

variable {α β : Type} {run : Run α} {next : α → Run β}

/-- Whether the computation comes to its end or not, the surroundings are the same. -/
def Internal (run : Run α) : Prop := ∀ machine : Machine, machine.SameSurroundings (run.left machine)

namespace Internal

@[grind ←]
theorem bind (first : Internal run) (second : ∀ result, Internal (next result)) :
    Internal (run >>= next) := by
  intro machine
  refine left_bind (first machine) fun result after ended => ?_
  have between := first machine
  rw [left_of_ok ended] at between
  exact between.trans (second result after)

@[grind ←]
theorem pure {result : α} : Internal (Pure.pure result : Run α) := Machine.SameSurroundings.refl

@[grind ←]
theorem fail {reason : MachineError} : Internal (Run.fail reason : Run α) :=
  Machine.SameSurroundings.refl

@[grind ←]
theorem failThen {reason : MachineError} {next : β → Run α} :
    Internal (Run.fail reason >>= next) := Machine.SameSurroundings.refl

@[grind ←]
theorem getRegisters : Internal getRegisters := Machine.SameSurroundings.refl

@[grind ←]
theorem getNil : Internal getNil := Machine.SameSurroundings.refl

@[grind ←]
theorem modifyRegisters {change : Registers → Registers} : Internal (modifyRegisters change) :=
  fun _ => ⟨_, _, rfl⟩

@[grind ←]
theorem readHeap {query : Heap → Except MemoryError α} : Internal (readHeap query) := by
  intro machine
  rw [left_of_ofMemory (readHeap_apply query)]
  exact .refl machine

@[grind ←]
theorem fetch {object : Value} {index : Nat} : Internal (fetch object index) := readHeap

@[grind ←]
theorem fetchInt {object : Value} {index : Nat} : Internal (fetchInt object index) := readHeap

@[grind ←]
theorem store {object value : Value} {index : Nat} : Internal (store object index value) := by
  intro machine
  rw [left, Run.store]
  cases machine.heap.store object index value <;> exact ⟨_, _, rfl⟩

@[grind ←]
theorem methodHeader {method : Value} : Internal (methodHeader method) :=
  readHeap.bind fun header => by cases header <;> grind

@[grind ←]
theorem specialObject {index : Nat} : Internal (specialObject index) := by
  grind [Run.specialObject]

/-! ## Contexts -/

@[grind ←]
theorem encodePc {method : Value} {pc : Nat} : Internal (encodePc method pc) := by
  grind [Run.encodePc]

@[grind ←]
theorem decodePc {method : Value} {encoded : Int} : Internal (decodePc method encoded) := by
  grind [Run.decodePc]

@[grind ←]
theorem homeOf {context : Value} : Internal (homeOf context) := by
  grind [Run.homeOf]

@[grind ←]
theorem loadContext {context : Value} : Internal (loadContext context) := by
  grind [Run.loadContext]

@[grind ←]
theorem saveContext : Internal saveContext := by
  grind [Run.saveContext]

/-! ## Processes -/

@[grind ←]
theorem scheduler : Internal scheduler := by
  grind [Run.scheduler]

@[grind ←]
theorem activeProcess : Internal activeProcess := by
  grind [Run.activeProcess]

@[grind ←]
theorem priorityOf {process : Value} : Internal (priorityOf process) := by
  grind [Run.priorityOf]

@[grind ←]
theorem isEmptyList {list : Value} : Internal (isEmptyList list) := by
  grind [Run.isEmptyList]

@[grind ←]
theorem addLast {link list : Value} : Internal (addLast link list) := by
  grind [Run.addLast]

@[grind ←]
theorem removeFirst {list : Value} : Internal (removeFirst list) := by
  refine getNil.bind fun nil => fetch.bind fun first => fetch.bind fun last => ?_
  split <;> grind

@[grind ←]
theorem readyList {priority : Nat} : Internal (readyList priority) := by
  grind [Run.readyList, Run.readyLists]

@[grind ←]
theorem sleep {process : Value} : Internal (sleep process) := by
  grind [Run.sleep]

@[grind ←]
theorem transferTo {process : Value} : Internal (transferTo process) := by
  refine getNil.bind fun nil => scheduler.bind fun scheduler => ?_
  refine fetch.bind fun suspended => saveContext.bind fun _ => ?_
  grind

@[grind ←]
theorem resume {process : Value} : Internal (resume process) := by
  grind [Run.resume]

@[grind ←]
theorem signal {semaphore : Value} : Internal (signal semaphore) := by
  grind [Run.signal]

@[grind ←]
theorem signalSpecial {index : Nat} : Internal (signalSpecial index) := by
  grind [Run.signalSpecial]

end Internal

end Run

end Smalltalk

import Smalltalk.Proofs.Machine.Ensures

namespace Smalltalk

/-! What a computation on a machine evaluates to, one part after the other. -/

namespace Machine

/-- The machine with another heap. -/
def withHeap (machine : Machine) (heap : Heap) : Machine := { machine with heap }

variable {machine : Machine} {heap later : Heap}

@[simp] theorem heap_withHeap : (machine.withHeap heap).heap = heap := rfl

@[simp] theorem registers_withHeap :
    (machine.withHeap heap).registers = machine.registers := rfl

@[simp] theorem withHeap_withHeap :
    (machine.withHeap heap).withHeap later = machine.withHeap later := rfl

end Machine

namespace Run

variable {α β : Type} {run : Run α} {next : α → Run β} {machine after : Machine}

theorem bind_ok {result : α} (ended : run machine = .ok result after) :
    (run >>= next) machine = next result after := by
  simp [bind, EStateM.bind, ended]

theorem bind_error {stop : Stop} (stopped : run machine = .error stop after) :
    (run >>= next) machine = .error stop after := by
  simp [bind, EStateM.bind, stopped]

/-- The first part of a computation is known to come to its end. -/
theorem Ensures.bindOk {final : β → Machine → Prop} {result : α}
    (ended : run machine = .ok result after) (rest : (next result).Ensures after final) :
    (run >>= next).Ensures machine final := by
  intro last state stopped
  exact rest last state ((bind_ok ended).symm.trans stopped)

theorem ofMemory_ok (result : α) : ofMemory (.ok result) machine = .ok result machine := rfl

theorem ofMemory_error (error : MemoryError) :
    (ofMemory (.error error) : Run α) machine = .error (.error (.memory error)) machine := rfl

theorem pure_apply (result : α) : (pure result : Run α) machine = .ok result machine := rfl

theorem get_apply : (get : Run Machine) machine = .ok machine machine := rfl

theorem getRegisters_apply : getRegisters machine = .ok machine.registers machine := rfl

theorem getHeap_apply : getHeap machine = .ok machine.heap machine := rfl

theorem getNil_apply : getNil machine = .ok machine.registers.specials.nil machine := rfl

theorem modify_apply (change : Machine → Machine) :
    (modify change : Run Unit) machine = .ok () (change machine) := rfl

theorem modifyRegisters_apply (change : Registers → Registers) :
    modifyRegisters change machine
      = .ok () { machine with registers := change machine.registers } := rfl

theorem readHeap_apply (query : Heap → Except MemoryError α) :
    readHeap query machine = ofMemory (query machine.heap) machine := by
  rw [readHeap]
  cases query machine.heap <;> rfl

theorem readHeap_ok {query : Heap → Except MemoryError α} {result : α}
    (found : query machine.heap = .ok result) : readHeap query machine = .ok result machine := by
  rw [readHeap_apply, found, ofMemory_ok]

theorem readHeap_error {query : Heap → Except MemoryError α} {error : MemoryError}
    (failed : query machine.heap = .error error) :
    readHeap query machine = .error (.error (.memory error)) machine := by
  rw [readHeap_apply, failed, ofMemory_error]

theorem fetch_ok {object value : Value} {index : Nat}
    (found : machine.heap.fetch object index = .ok value) :
    fetch object index machine = .ok value machine :=
  readHeap_ok found

theorem fetch_error {object : Value} {index : Nat} {error : MemoryError}
    (failed : machine.heap.fetch object index = .error error) :
    fetch object index machine = .error (.error (.memory error)) machine :=
  readHeap_error failed

/-- The computation comes to its end. -/
def Ends (run : Run α) (machine : Machine) : Prop :=
  ∃ result after, run machine = .ok result after

namespace Ends

theorem of_ok {result : α} (ended : run machine = .ok result after) : run.Ends machine :=
  ⟨result, after, ended⟩

theorem bind {middle : α → Machine → Prop} (first : run.Ends machine)
    (ensures : run.Ensures machine middle)
    (second : ∀ result after, middle result after → (next result).Ends after) :
    (run >>= next).Ends machine := by
  rcases first with ⟨result, between, ended⟩
  rcases second result between (ensures result between ended) with ⟨last, after, rest⟩
  exact ⟨last, after, (bind_ok ended).trans rest⟩

theorem bindOk {result : α} (ended : run machine = .ok result after)
    (rest : (next result).Ends after) : (run >>= next).Ends machine := by
  rcases rest with ⟨last, final, stopped⟩
  exact ⟨last, final, (bind_ok ended).trans stopped⟩

end Ends

/-- The machine that a computation leaves, whether it comes to its end or not. -/
def left (run : Run α) (machine : Machine) : Machine :=
  match run machine with
  | .ok _ after => after
  | .error _ after => after

theorem left_of_ok {result : α} (ended : run machine = .ok result after) :
    run.left machine = after := by
  rw [left, ended]

theorem left_of_error {stop : Stop} (stopped : run machine = .error stop after) :
    run.left machine = after := by
  rw [left, stopped]

theorem left_of_ofMemory {answer : Except MemoryError α}
    (ended : run machine = ofMemory answer after) : run.left machine = after := by
  cases answer with
  | ok result => exact left_of_ok ended
  | error error => exact left_of_error ended

end Run

end Smalltalk

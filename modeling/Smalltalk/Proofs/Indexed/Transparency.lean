import Smalltalk.Proofs.Indexed.Boxing
import Smalltalk.Proofs.Machine.References

namespace Smalltalk

/-! The at-cache makes no difference to what a machine does. What it remembers is what the
classes of the objects say, and an access on the spot comes to what the full send of its
message comes to. -/

namespace Run

/-- Execute one instruction, with the full send in place of every access on the spot. -/
def stepSending : Run Unit := do
  let sender := sendToClass Machine.nestingLimit
  let byte ← nextByte
  modify fun machine => { machine with bytecodes := machine.bytecodes + 1 }
  if byte = Access.read.opcode then sendSpecial sender Access.read.message.index
  else if byte = Access.write.opcode then sendSpecial sender Access.write.message.index
  else execute sender byte

end Run

namespace Machine

variable {start machine : Machine} {word : UInt32}

/-- The machine after the byte of an instruction was read. -/
def advanced (machine : Machine) : Machine :=
  { machine with
    registers := { machine.registers with pc := machine.registers.pc + 1 }
    bytecodes := machine.bytecodes + 1 }

/-- Whether the next instruction reads an element on the spot for which it makes a number. -/
def MakesNumber (machine : Machine) (word : UInt32) : Prop :=
  (∃ after, Run.nextByte machine = .ok Access.read.opcode after) ∧
    machine.advanced.ReadsLargeWord word

/-- Whether that number finds the table full. -/
def IsCramped (machine : Machine) : Prop :=
  machine.heap.capacity ≤ machine.heap.size ∧ ∃ word, machine.MakesNumber word

theorem Remembers.advanced (remembers : machine.Remembers machine) :
    machine.advanced.Remembers machine.advanced where
  consistent := remembers.consistent
  methods := remembers.methods
  parts access part member selector selects := by
    rcases remembers.parts access part member selector selects with ⟨object, here, vouches⟩
    exact ⟨object, here, vouches.described, vouches.answered⟩

end Machine

namespace Run

variable {machine : Machine}

theorem nextByte_ensures (machine : Machine) :
    nextByte.Ensures machine fun _ after =>
      after = { machine with
        registers := { machine.registers with pc := machine.registers.pc + 1 } } := by
  refine (ensures_getRegisters machine).bindExactly ?_
  refine (ensures_readHeap machine _).bindTo fun method _ => ?_
  split
  · exact .fail
  · exact (ensures_modifyRegisters machine _).bindChange fun _ => .pure rfl

/-- A step reads a byte and executes it. -/
theorem step_apply {byte : UInt8} {after : Machine} (read : nextByte machine = .ok byte after) :
    step machine = execute (sendToClass Machine.nestingLimit) byte machine.advanced := by
  cases nextByte_ensures machine byte after read
  exact (bind_ok read).trans (bind_ok (modify_apply _))

theorem stepSending_apply {byte : UInt8} {after : Machine}
    (read : nextByte machine = .ok byte after) :
    stepSending machine =
      (if byte = Access.read.opcode then
        sendSpecial (sendToClass Machine.nestingLimit) Access.read.message.index
      else if byte = Access.write.opcode then
        sendSpecial (sendToClass Machine.nestingLimit) Access.write.message.index
      else execute (sendToClass Machine.nestingLimit) byte) machine.advanced := by
  cases nextByte_ensures machine byte after read
  exact (bind_ok read).trans (bind_ok (modify_apply _))

/-- A step comes to the same with the full send. -/
theorem step_outcome (remembers : machine.Remembers machine)
    (asks : ∀ access, ∃ selector, machine.Asks access selector) (roomy : ¬ machine.IsCramped) :
    step.outcome machine = stepSending.outcome machine := by
  cases read : nextByte machine with
  | error stop after =>
    have stopped : step machine = .error stop after := bind_error read
    exact outcome_of_eq (stopped.trans (bind_error read).symm)
  | ok byte after =>
    have room (access : Access) (now : byte = access.opcode) : access = .read →
        ∀ word, machine.advanced.ReadsLargeWord word →
          machine.advanced.heap.size < machine.advanced.heap.capacity := by
      intro reads word large
      by_contra full
      subst reads now
      exact roomy ⟨Nat.not_lt.mp full, word, ⟨after, read⟩, large⟩
    have same (access : Access) (now : byte = access.opcode) :
        (execute (sendToClass Machine.nestingLimit) access.opcode).outcome machine.advanced
          = (sendSpecial (sendToClass Machine.nestingLimit) access.message.index).outcome
              machine.advanced := by
      rcases asks access with ⟨selector, asked⟩
      exact execute_outcome remembers.advanced asked (room access now) 999
    rw [outcome_of_eq (step_apply read), outcome_of_eq (stepSending_apply read)]
    split
    · rename_i reads
      rw [reads]
      exact same .read reads
    · split
      · rename_i writes
        rw [writes]
        exact same .write writes
      · rfl

/-- Where a step makes a number, so does the full send, in a cell that may be another one. -/
theorem step_boxes (remembers : machine.Remembers machine) {selector : Value}
    (asks : machine.Asks .read selector) {word : UInt32} (makes : machine.MakesNumber word) :
    step.BoxesIn machine.advanced machine
        (Reply.wordNumber machine.registers.specials word) () ∧
      stepSending.BoxesIn machine.advanced machine
        (Reply.wordNumber machine.registers.specials word) () := by
  rcases makes with ⟨⟨after, read⟩, large⟩
  have asked : machine.advanced.Asks .read selector := asks
  rcases access_boxes remembers.advanced asked large 999 with ⟨spot, sent⟩
  refine ⟨spot.of_eq (step_apply read), sent.of_eq ?_⟩
  rw [stepSending_apply read, if_pos rfl]
  rfl

end Run

namespace Machine

variable {start machine : Machine}

theorem quietRuns_nth {n : Nat}
    (steps : ∀ k < n, (machine.nth k).QuietStep (machine.nth (k + 1))) :
    machine.QuietRuns (machine.nth n) := by
  induction n with
  | zero => exact .refl
  | succ n induction =>
    exact .step (induction fun k before => steps k (before.trans n.lt_succ_self))
      (steps n n.lt_succ_self)

/-- A machine with eighteen objects. Its method asks the object with number eleven for its
first word, sends a message to the object with number twelve, forgets it, and asks for the
second word, which is no small integer. -/
def wordMachine (capacity : Nat) : Machine :=
  let nil : Value := .object 0
  let selectors := List.replicate 32 nil ++ [.object 4, .ofInt 1, .object 10, .ofInt 2]
  let machine := sampleMachine
    [sampleNode .zero #[],
      sampleNode .zero #[nil, .object 2, (ClassFormat.pack 0 Format.words).value],
      sampleNode .zero #[.zero, .object 3, .object 4], sampleNode .zero #[.object 5],
      sampleNode .zero #[], sampleMethod 60 [] #[120],
      sampleMethod 0 [.object 16] #[16, 118, 192, 17, 208, 115, 105, 16, 119, 192],
      sampleNode .zero #[nil, nil, nil, .object 6, nil, .object 8, .object 11, .object 12, nil,
        nil, nil, nil],
      sampleNode .zero #[], sampleNode .zero selectors.toArray, sampleNode .zero #[],
      { species := .object 1, format := Format.words, body := .words #[0, 4294967295] },
      sampleNode (.object 13) #[], sampleNode .zero #[nil, .object 14, .zero],
      sampleNode .zero #[.zero, .object 15, .object 16], sampleNode .zero #[.object 17],
      sampleNode .zero #[], sampleMethod 259 [] #[120]]
    capacity nil
  { machine with registers := { machine.registers with
      specials := { machine.registers.specials with specialSelectors := .object 9 }
      sp := 7 } }

/-- The machine in front of the last of its instructions. -/
def wordMachineLate (capacity : Nat) : Machine := (wordMachine capacity).nth 9

theorem quietRuns_wordMachine {capacity : Nat} (known : capacity = 18 ∨ capacity = 19) :
    (wordMachine capacity).QuietRuns (wordMachineLate capacity) := by
  refine quietRuns_nth ?_
  rcases known with rfl | rfl <;> decide +kernel

theorem asks_wordMachine {capacity : Nat} (known : capacity = 18 ∨ capacity = 19)
    (access : Access) : ∃ selector, (wordMachineLate capacity).Asks access selector := by
  cases access with
  | read =>
    refine ⟨.object 4, ⟨rfl, ?_⟩, ?_⟩
    · rcases known with rfl | rfl <;> decide +kernel
    · rcases known with rfl | rfl <;> decide +kernel
  | write =>
    refine ⟨.object 10, ⟨rfl, ?_⟩, ?_⟩
    · rcases known with rfl | rfl <;> decide +kernel
    · rcases known with rfl | rfl <;> decide +kernel

theorem makesNumber_wordMachine {capacity : Nat} (known : capacity = 18 ∨ capacity = 19) :
    (wordMachineLate capacity).MakesNumber 4294967295 := by
  have read : Run.nextByte.ended? (wordMachineLate capacity)
      = some (192, Run.nextByte.left (wordMachineLate capacity)) := by
    rcases known with rfl | rfl <;> decide +kernel
  refine ⟨⟨_, Run.ended?_eq_some.mp read⟩, ⟨.object 11, .words, 0, 2⟩, .ofInt 2, 1, ?_⟩
  simp only [← Run.ended?_eq_some]
  rcases known with rfl | rfl <;> decide +kernel

end Machine

end Smalltalk

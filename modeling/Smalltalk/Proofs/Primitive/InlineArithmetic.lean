import Smalltalk.Proofs.Heap.Holders
import Smalltalk.Proofs.Indexed.Asking
import Smalltalk.Proofs.Machine.Branches
import Smalltalk.Proofs.Primitive.Performs

namespace Smalltalk

/-! An arithmetic message is done in two places: by its instruction, on the spot, and by
the primitive of the method that a send would find. Both come to the same result, or
neither has one. -/

/-- The primitive with the meaning of an arithmetic message. -/
def ArithmeticMeaning.primitive : ArithmeticMeaning → Primitive
  | .operation named => .integer named
  | .comparison named => .compareIntegers named
  | .makePoint => .makePoint

namespace Opcode

/-- The number of the primitive for the message of an arithmetic instruction. -/
def primitiveNumber? (byte : UInt8) : Option Nat :=
  match byte.toNat with
  | 176 => some 1
  | 177 => some 2
  | 178 => some 3
  | 179 => some 4
  | 180 => some 5
  | 181 => some 6
  | 182 => some 7
  | 183 => some 8
  | 184 => some 9
  | 185 => some 10
  | 186 => some 11
  | 187 => some 18
  | 188 => some 17
  | 189 => some 12
  | 190 => some 14
  | 191 => some 15
  | _ => none

/-- These are the sixteen instructions from 176 on. -/
example : ∀ code : Fin 256, (primitiveNumber? (UInt8.ofFin code)).isSome =
    decide (176 ≤ code.val ∧ code.val ≤ 191) := by decide +kernel

/-- The numbers name the primitives with the meaning of the messages. -/
theorem ofByte_numbered {byte : UInt8} {number : Nat} (numbered : primitiveNumber? byte = some number) :
    ∃ message, ofByte byte = arithmetic message ∧
      Primitive.ofNumber? number = some message.meaning.primitive := by
  simp only [primitiveNumber?] at numbered
  split at numbered <;> rename_i code <;> cases numbered
  all_goals simp [ofByte, code, ArithmeticMessage.ofIndex, ArithmeticMessage.all]
  all_goals rfl

end Opcode

/-- How many arguments a message has is not among what registers hold. -/
theorem Registers.standsFor_withArgumentCount (count : Nat) :
    RootSet.StandsFor fun registers : Registers => { registers with argumentCount := count } where
  values _ := rfl
  rename _ _ := rfl
  flush _ := rfl

/-- The machine while it sends a message with some number of arguments. -/
def Machine.asking (machine : Machine) (count : Nat) : Machine :=
  { machine with registers.argumentCount := count }

namespace Run

/-- What a computation comes to, while such a message is sent. -/
def asking {α : Type} (count : Nat) : EStateM.Result Stop Machine α → EStateM.Result Stop Machine α
  | .ok result after => .ok result (after.asking count)
  | .error stop after => .error stop (after.asking count)

/-- A computation does not ask how many arguments the message has. -/
def IgnoresAsking {α : Type} (run : Run α) : Prop :=
  ∀ (machine : Machine) (count : Nat), run (machine.asking count) = asking count (run machine)

namespace IgnoresAsking

variable {α β : Type} {run : Run α} {next : α → Run β}

theorem pure {result : α} : IgnoresAsking (Pure.pure result) := fun _ _ => rfl

theorem bind (first : IgnoresAsking run) (rest : ∀ result, IgnoresAsking (next result)) :
    IgnoresAsking (run >>= next) := by
  intro machine count
  have started := first machine count
  cases ended : run machine with
  | ok result between =>
    rw [ended] at started
    rw [bind_ok started, bind_ok ended]
    exact rest result between count
  | error stop between =>
    rw [ended] at started
    rw [bind_error started, bind_error ended]
    rfl

theorem bindRegisters {next : Registers → Run β}
    (same : ∀ (registers : Registers) (count : Nat),
      next { registers with argumentCount := count } = next registers)
    (rest : ∀ registers, IgnoresAsking (next registers)) :
    IgnoresAsking (getRegisters >>= next) := by
  intro machine count
  rw [bind_ok getRegisters_apply, bind_ok getRegisters_apply, ← rest machine.registers machine count]
  exact congrFun (same machine.registers count) _

theorem fetch {object : Value} {index : Nat} : IgnoresAsking (fetch object index) := by
  intro machine count
  rw [Run.fetch, readHeap_apply, readHeap_apply]
  have same : (machine.asking count).heap = machine.heap := rfl
  rw [same]
  cases machine.heap.fetch object index <;> rfl

theorem store {object value : Value} {index : Nat} : IgnoresAsking (store object index value) := by
  intro machine count
  have same : (machine.asking count).heap = machine.heap := rfl
  rw [Run.store, Run.store, same]
  cases machine.heap.store object index value <;> rfl

theorem register {object : HeapObject} : IgnoresAsking (register object) := by
  intro machine count
  have mapped := HeapM.register_mapRoots (Registers.standsFor_withArgumentCount count) object
    ⟨machine.heap, machine.registers⟩
  rw [Run.register, onHeap, onHeap]
  change HeapM.register object ⟨(machine.asking count).heap, (machine.asking count).registers⟩ = _
    at mapped
  rw [mapped]
  cases HeapM.register object ⟨machine.heap, machine.registers⟩ <;> rfl

theorem operand {depth : Nat} : IgnoresAsking (operand depth) := by
  refine bindRegisters (fun _ _ => rfl) fun registers => ?_
  split
  · exact fetch
  · exact fun _ _ => rfl

theorem replace {places : Nat} {value : Value} : IgnoresAsking (replace places value) := by
  refine bind (fun _ _ => rfl) fun _ => bind (fun _ _ => rfl) fun _ => ?_
  exact bindRegisters (fun _ _ => rfl) fun _ => store

theorem succeed {places : Nat} {value : Value} : IgnoresAsking (succeed places value) :=
  replace.bind fun _ => pure

theorem integerPair : IgnoresAsking integerPair :=
  operand.bind fun _ => operand.bind fun _ => pure

theorem integerOperation {operation : IntegerOperation} :
    IgnoresAsking (Reply.integerOperation operation 1) := by
  refine integerPair.bind fun operands => ?_
  cases operands with
  | none => exact pure
  | some pair =>
    dsimp only
    cases operation.value? pair.1 pair.2 with
    | none => exact pure
    | some result => exact succeed

theorem pointOf : IgnoresAsking (Reply.pointOf 1) := by
  refine operand.bind fun x => operand.bind fun y => ?_
  split
  · exact pure
  · exact (bindRegisters (fun _ _ => rfl) fun _ => register).bind fun _ => succeed

end IgnoresAsking

/-! ## On the spot

The operands of the instruction are the receiver and the argument of the primitive, so
what does not look at the following jump is the same computation. -/

variable {machine after : Machine} {message : ArithmeticMessage}

theorem inlineArithmetic_operation {operation : IntegerOperation}
    (meaning : message.meaning = .operation operation) :
    inlineArithmetic message = Reply.integerOperation operation 1 := by
  rw [inlineArithmetic, meaning]
  rfl

theorem inlineArithmetic_makePoint (meaning : message.meaning = .makePoint) :
    inlineArithmetic message = Reply.pointOf 1 := by
  rw [inlineArithmetic, meaning]

theorem integerOperands_asking {pair : Option (Int × Int)}
    (paired : integerPair machine = .ok pair after) :
    Reply.integerOperands 1 (machine.asking 1) = .ok pair (after.asking 1) :=
  (IgnoresAsking.integerPair machine 1).trans (congrArg (asking 1) paired)

/-- Two integers are found only where two operands lie, the lower one first. -/
theorem integerPair_ensures (machine : Machine) :
    integerPair.Ensures machine fun pair after => after = machine ∧ ∀ a b, pair = some (a, b) →
      1 ≤ machine.registers.sp ∧ ∃ fields,
        machine.heap.pointers machine.registers.activeContext = .ok fields ∧
          machine.registers.sp < fields.size := by
  refine (operand_finds machine 1).bind ?_
  rintro receiver _ ⟨two, rfl⟩
  refine (operand_finds _ 0).bind ?_
  rintro argument last ⟨top, rfl⟩
  refine .pure ⟨rfl, fun a b _ => ⟨two.1, ?_⟩⟩
  rcases Heap.fetch_eq_ok_iff.mp top.2 with ⟨fields, readable, found⟩
  exact ⟨fields, readable, (Array.getElem?_eq_some_iff.mp found).1⟩

/-- Where the instruction gives up it has changed nothing. -/
theorem inlineArithmetic_unchanged (machine : Machine) (message : ArithmeticMessage) :
    (inlineArithmetic message).Ensures machine fun done after => done = false → after = machine := by
  have answers {run : Run Bool} (answers : Answers run) (between : Machine) :
      run.Ensures between fun done after => done = false → after = between :=
    (answers between).mono fun _ _ answered failed =>
      absurd (failed.symm.trans answered) Bool.false_ne_true
  unfold inlineArithmetic
  cases message.meaning with
  | makePoint =>
    refine (operand_finds machine 1).bind ?_
    rintro x _ ⟨-, rfl⟩
    refine (operand_finds _ 0).bind ?_
    rintro y last ⟨-, rfl⟩
    split
    · exact .pure fun _ => rfl
    · exact answers (.bind fun _ => .succeed) last
  | operation operation =>
    refine (integerPair_ensures machine).bind ?_
    rintro pair last ⟨rfl, -⟩
    rcases pair with - | ⟨a, b⟩
    · exact .pure fun _ => rfl
    · dsimp only
      cases operation.value? a b with
      | none => exact .pure fun _ => rfl
      | some result => exact answers (.bind fun _ => .pure) last
  | comparison comparison =>
    refine (integerPair_ensures machine).bind ?_
    rintro pair last ⟨rfl, -⟩
    rcases pair with - | ⟨a, b⟩
    · exact .pure fun _ => rfl
    · exact answers (.bind fun _ => .bind fun _ => .pure) last

end Run

/-! ## The two compared -/

namespace Machine

/-- What an arithmetic message leaves when it is done on the spot, and what it leaves when
its primitive does it. That is the same, unless the truth value of a comparison is taken into
the jump after it, instead of being pushed. -/
inductive DoneAlike (read : Machine) (message : ArithmeticMessage) : (done answered : Machine) → Prop
  | pushed {done : Machine} : DoneAlike read message done (done.asking 1)
  | folded {comparison : Comparison} {result : Bool} {distance : Nat}
      (meaning : message.meaning = .comparison comparison)
      (reaches : Branch.reach? result read.code read.registers.pc = some distance) :
      DoneAlike read message ((read.dropped 2).ahead distance)
        (((read.asking 1).dropped 2).pushed (read.registers.specials.boolean result))

end Machine

namespace Run

open Machine

variable {machine done : Machine} {message : ArithmeticMessage}

/-- An instruction that compares on the spot knows the truth value that the primitive
answers. -/
theorem inlineArithmetic_compared {comparison : Comparison}
    (meaning : message.meaning = .comparison comparison)
    (owned : ∃ owner, machine.heap.get? machine.registers.method = some owner)
    (ended : inlineArithmetic message machine = .ok true done) :
    ∃ answered, Reply.integerComparison comparison 1 (machine.asking 1) = .ok true answered ∧
      machine.DoneAlike message done answered := by
  rw [inlineArithmetic, meaning] at ended
  cases paired : integerPair machine with
  | error stop between => cases (bind_error paired).symm.trans ended
  | ok pair between =>
    rcases integerPair_ensures machine pair between paired with ⟨rfl, inside⟩
    replace ended := (bind_ok paired).symm.trans ended
    rcases pair with - | ⟨a, b⟩
    · cases ended
    · rcases inside a b rfl with ⟨two, fields, readable, used⟩
      have room : (between.dropped 2).registers.sp + 1 < fields.size := by
        have lower : (between.dropped 2).registers.sp = between.registers.sp - 2 := rfl
        omega
      have branched := pushOrBranch_apply (between.dropped 2) owned readable room
        (comparison.onIntegers a b)
      have truth : booleanObject (comparison.onIntegers a b) (between.asking 1) =
          .ok (between.registers.specials.boolean (comparison.onIntegers a b))
            (between.asking 1) := rfl
      have answered : Reply.integerComparison comparison 1 (between.asking 1) = .ok true
          (((between.asking 1).dropped 2).pushed
            (between.registers.specials.boolean (comparison.onIntegers a b))) := by
        refine (bind_ok (integerOperands_asking paired)).trans ((bind_ok truth).trans ?_)
        exact bind_ok ((bind_ok (modifyRegisters_apply _)).trans (push_ok readable room))
      refine ⟨_, answered, ?_⟩
      replace ended := (bind_ok (modifyRegisters_apply _)).symm.trans ended
      replace ended := (bind_ok branched).symm.trans ended
      cases ended
      cases reaches : Branch.reach? (comparison.onIntegers a b) (between.dropped 2).code
        (between.dropped 2).registers.pc with
      | none => exact .pushed
      | some distance => exact .folded meaning reaches

/-- What an instruction does on the spot its primitive does. -/
theorem inlineArithmetic_answered
    (owned : ∃ owner, machine.heap.get? machine.registers.method = some owner)
    (ended : inlineArithmetic message machine = .ok true done) :
    ∃ answered,
      (∀ send, message.meaning.primitive.run send 1 (machine.asking 1) = .ok true answered) ∧
        machine.DoneAlike message done answered := by
  cases meaning : message.meaning with
  | makePoint =>
    rw [inlineArithmetic_makePoint meaning] at ended
    refine ⟨done.asking 1, fun _ => ?_, .pushed⟩
    exact (IgnoresAsking.pointOf machine 1).trans (congrArg (asking 1) ended)
  | operation operation =>
    rw [inlineArithmetic_operation meaning] at ended
    refine ⟨done.asking 1, fun _ => ?_, .pushed⟩
    exact (IgnoresAsking.integerOperation machine 1).trans (congrArg (asking 1) ended)
  | comparison comparison =>
    rcases inlineArithmetic_compared meaning owned ended with ⟨answered, ran, alike⟩
    exact ⟨answered, fun _ => ran, alike⟩

/-- What an instruction leaves to a send its primitive refuses. -/
theorem inlineArithmetic_refused (ended : inlineArithmetic message machine = .ok false done) :
    done = machine ∧ ∀ send,
      message.meaning.primitive.run send 1 (machine.asking 1) = .ok false (machine.asking 1) := by
  obtain rfl : done = machine := inlineArithmetic_unchanged machine message false done ended rfl
  refine ⟨rfl, fun _ => ?_⟩
  cases meaning : message.meaning with
  | makePoint =>
    rw [inlineArithmetic_makePoint meaning] at ended
    exact (IgnoresAsking.pointOf done 1).trans (congrArg (asking 1) ended)
  | operation operation =>
    rw [inlineArithmetic_operation meaning] at ended
    exact (IgnoresAsking.integerOperation done 1).trans (congrArg (asking 1) ended)
  | comparison comparison =>
    rw [inlineArithmetic, meaning] at ended
    cases paired : integerPair done with
    | error stop between => cases (bind_error paired).symm.trans ended
    | ok pair between =>
      replace ended := (bind_ok paired).symm.trans ended
      rcases pair with - | ⟨a, b⟩
      · cases ended
        exact bind_ok (integerOperands_asking paired)
      · have answers : Answers (do drop 2; pushOrBranch (comparison.onIntegers a b); return true) :=
          .bind fun _ => .bind fun _ => .pure
        cases answers between false done ended

/-- For whatever machine is about to execute an arithmetic instruction. If the instruction
comes to its end without a send, the primitive with its number, asked with one argument on the
same stack, answers, and the two leave the same machine, but for the truth value that the
following jump takes; if it leaves the message to a send, the primitive fails and changes
nothing. -/
theorem arithmetic_agrees_with_primitive {byte : UInt8} {number : Nat}
    (next : machine.nextByte? = some byte) (numbered : Opcode.primitiveNumber? byte = some number) :
    let read := (machine.ahead 1).counted
    ∃ message, Opcode.ofByte byte = .arithmetic message ∧
      (∀ done, inlineArithmetic message read = .ok true done →
        (∀ sender, stepBy sender machine = .ok () done) ∧
          ∃ answered, (∀ send, respond send number (read.asking 1) = .ok true answered) ∧
            read.DoneAlike message done answered) ∧
      (∀ done, inlineArithmetic message read = .ok false done →
        (∀ sender, stepBy sender machine = sendSpecial sender message.index read) ∧
          ∀ send, respond send number (read.asking 1) = .ok false (read.asking 1)) ∧
      ∀ stop done, inlineArithmetic message read = .error stop done →
        ∀ sender, stepBy sender machine = .error stop done := by
  intro read
  rcases Opcode.ofByte_numbered numbered with ⟨message, decoded, named⟩
  have started (sender : Reply.Sender) : stepBy sender machine = execute sender byte read :=
    bind_ok (nextByte_ok next)
  have owned : ∃ owner, read.heap.get? read.registers.method = some owner := by
    rcases Option.bind_eq_some_iff.mp next with ⟨bytes, found, -⟩
    rcases Option.bind_eq_some_iff.mp found with ⟨owner, owned, -⟩
    exact ⟨owner, owned⟩
  refine ⟨message, decoded, ?_, ?_, ?_⟩
  · intro done ended
    refine ⟨fun sender => ?_, ?_⟩
    · rw [started sender, execute, decoded]
      exact bind_ok ended
    · obtain ⟨answered, ran, alike⟩ : ∃ answered,
          (∀ send, message.meaning.primitive.run send 1 (read.asking 1) = .ok true answered) ∧
            read.DoneAlike message done answered := inlineArithmetic_answered owned ended
      refine ⟨answered, fun send => ?_, alike⟩
      rw [respond_apply send named]
      exact bind_ok (ran send)
  · intro done ended
    rcases inlineArithmetic_refused ended with ⟨rfl, refused⟩
    refine ⟨fun sender => ?_, fun send => ?_⟩
    · rw [started sender, execute, decoded]
      exact bind_ok ended
    · rw [respond_apply send named]
      exact bind_ok (refused send)
  · intro stop done ended sender
    rw [started sender, execute, decoded]
    exact bind_error ended

/-- Where zero is compared with itself, the jump after the comparison takes the truth value
that the primitive answers. -/
theorem arithmetic_agrees_comparingMachine :
    comparingMachine.nextByte? = some 182 ∧ Opcode.primitiveNumber? 182 = some 7 ∧
      ∃ done answered, Run.step comparingMachine = .ok () done ∧
        respond (sendToClass nestingLimit) 7 ((comparingMachine.ahead 1).counted.asking 1)
          = .ok true answered ∧
        (comparingMachine.ahead 1).counted.DoneAlike .equal done answered := by
  have next : comparingMachine.nextByte? = some 182 := by decide +kernel
  have numbered : Opcode.primitiveNumber? 182 = some 7 := by decide
  have ended : inlineArithmetic .equal (comparingMachine.ahead 1).counted = .ok true
      ((inlineArithmetic .equal).left (comparingMachine.ahead 1).counted) :=
    ended?_eq_some.mp (by decide +kernel)
  rcases arithmetic_agrees_with_primitive next numbered with ⟨message, decoded, onTheSpot, -, -⟩
  have equal : Opcode.ofByte 182 = .arithmetic .equal := by decide +kernel
  cases equal.symm.trans decoded
  rcases onTheSpot _ ended with ⟨stepped, answered, ran, alike⟩
  exact ⟨next, numbered, _, answered, stepped _, ran _, alike⟩

end Run

end Smalltalk

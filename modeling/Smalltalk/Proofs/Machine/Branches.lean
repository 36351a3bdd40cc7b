import Smalltalk.Machine.Step
import Smalltalk.Proofs.Frame.Saved
import Smalltalk.Proofs.Machine.References
import Smalltalk.Proofs.Machine.Step

namespace Smalltalk

/-! A comparison that is followed by a conditional jump takes the jump itself. Nobody can
tell that from pushing the truth value and letting the jump pop it: only the slot above
the top of the stack, which is not in use any more, may come out different. -/

/-! ## What the bits of a jump say -/

namespace Branch

variable {code : Array UInt8} {place : Nat}

/-- How far a conditional jump that stands at a place goes when the truth value is
`result`, counted from the place itself and read off the bits of its bytes. There is
nothing to say about other instructions and about a jump that the method cuts short. -/
def reach? (result : Bool) (code : Array UInt8) (place : Nat) : Option Nat :=
  match code[place]? with
  | none => none
  | some jump =>
    if 152 ≤ jump.toNat ∧ jump.toNat ≤ 159 then
      some (1 + if result then 0 else jump.toNat % 8 + 1)
    else if 168 ≤ jump.toNat ∧ jump.toNat ≤ 175 then
      match code[place + 1]? with
      | none => none
      | some low =>
        some (2 + if result = decide (jump.toNat < 172) then jump.toNat % 4 * 256 + low.toNat
          else 0)
    else none

example : reach? false #[0x9F] 0 = some 9 := by decide
example : reach? true #[0xA8, 0x03] 0 = some 5 := by decide
example : reach? true #[0xA8] 0 = none := by decide

/-- The comparison that an instruction makes of two integers. -/
def compare? (byte : UInt8) (a b : Int) : Option Bool :=
  match byte.toNat with
  | 178 => some (a < b)
  | 179 => some (b < a)
  | 180 => some (a ≤ b)
  | 181 => some (b ≤ a)
  | 182 => some (a = b)
  | 183 => some (a ≠ b)
  | _ => none

end Branch

namespace Opcode

variable {byte : UInt8}

/-- Whether an instruction is a conditional jump. -/
def jumpsOnTruth : Opcode → Bool
  | jumpIfFalse _ | longJumpIf _ _ => Bool.true
  | _ => Bool.false

theorem ofByte_short (least : 152 ≤ byte.toNat) (most : byte.toNat ≤ 159) :
    ofByte byte = jumpIfFalse (byte.toNat % 8 + 1) := by
  have distance : byte.toNat - 152 + 1 = byte.toNat % 8 + 1 := by omega
  simp only [ofByte]
  repeat rw [if_neg (by omega)]
  rw [if_pos (by omega), distance]

theorem ofByte_long (least : 168 ≤ byte.toNat) (most : byte.toNat ≤ 175) :
    ofByte byte = longJumpIf (decide (byte.toNat < 172)) (byte.toNat % 4) := by
  simp only [ofByte]
  iterate 10 rw [if_neg (by omega)]
  by_cases onTrue : byte.toNat < 172
  · have page : byte.toNat - 168 = byte.toNat % 4 := by omega
    rw [if_pos onTrue, page, decide_eq_true onTrue]
  · have page : byte.toNat - 172 = byte.toNat % 4 := by omega
    rw [if_neg onTrue, if_pos (by omega), page, decide_eq_false onTrue]

/-- No other byte starts a conditional jump. -/
theorem jumpsOnTruth_ofByte (byte : UInt8) :
    (ofByte byte).jumpsOnTruth =
      decide (152 ≤ byte.toNat ∧ byte.toNat ≤ 159 ∨ 168 ≤ byte.toNat ∧ byte.toNat ≤ 175) := by
  have all : ∀ code : Fin 256, (ofByte (UInt8.ofFin code)).jumpsOnTruth =
      decide (152 ≤ code.val ∧ code.val ≤ 159 ∨ 168 ≤ code.val ∧ code.val ≤ 175) := by
    decide +kernel
  exact all byte.toFin

theorem ofByte_compare {a b : Int} {result : Bool}
    (compared : Branch.compare? byte a b = some result) :
    ∃ message comparison, ofByte byte = arithmetic message ∧
      message.meaning = .comparison comparison ∧ comparison.onIntegers a b = result := by
  simp only [Branch.compare?] at compared
  split at compared <;> rename_i code <;> cases compared
  all_goals simp [ofByte, code, ArithmeticMessage.ofIndex, ArithmeticMessage.all]
  all_goals simp [ArithmeticMessage.meaning, Comparison.onIntegers]
end Opcode

namespace Branch

variable {code : Array UInt8} {place : Nat}

/-- The comparison and the bits agree on how far the jump goes. -/
theorem advance?_eq_reach? (result : Bool) (code : Array UInt8) (place : Nat) :
    advance? result code place = reach? result code place := by
  rw [advance?, reach?]
  cases code[place]? with
  | none => rfl
  | some jump =>
    simp only [Option.map_some]
    by_cases short : 152 ≤ jump.toNat ∧ jump.toNat ≤ 159
    · rw [if_pos short, Opcode.ofByte_short short.1 short.2]
    · rw [if_neg short]
      by_cases long : 168 ≤ jump.toNat ∧ jump.toNat ≤ 175
      · rw [if_pos long, Opcode.ofByte_long long.1 long.2]
        cases code[place + 1]? <;> rfl
      · rw [if_neg long]
        have other := Opcode.jumpsOnTruth_ofByte jump
        rw [decide_eq_false (not_or.mpr ⟨short, long⟩)] at other
        cases decoded : Opcode.ofByte jump <;> simp_all [Opcode.jumpsOnTruth]

/-- Whether a conditional jump stands at a place, with all its bytes. -/
def stands (code : Array UInt8) (place : Nat) : Bool :=
  match code[place]?.map Opcode.ofByte with
  | some (.jumpIfFalse _) => true
  | some (.longJumpIf _ _) => place + 1 < code.size
  | _ => false

theorem stands_eq_isSome (result : Bool) (code : Array UInt8) (place : Nat) :
    stands code place = (reach? result code place).isSome := by
  rw [← advance?_eq_reach?, stands, advance?]
  cases code[place]?.map Opcode.ofByte with
  | none => rfl
  | some opcode =>
    cases opcode with
    | longJumpIf condition page => by_cases complete : place + 1 < code.size <;> simp [complete]
    | _ => rfl

end Branch

/-! ## A comparison and what follows it -/

namespace Specials

theorem boolean_inj {specials : Specials} (apart : specials.true ≠ specials.false)
    {first second : Bool} : specials.boolean first = specials.boolean second ↔ first = second := by
  cases first <;> cases second <;> simp [boolean, apart, apart.symm]

end Specials

namespace Run

/-- Push a truth value. A conditional jump that follows is an instruction of its own. -/
def pushThenJump (sender : Reply.Sender) (result : Bool) : Run Unit := do
  let registers ← getRegisters
  push (registers.specials.boolean result)
  let code := ((← object registers.method).bytes?).getD #[]
  if Branch.stands code registers.pc then
    execute sender (← nextByte)

end Run

namespace Machine

variable {machine : Machine}

/-- The bytes of the running method. -/
def code (machine : Machine) : Array UInt8 :=
  ((machine.heap.get? machine.registers.method).bind HeapObject.bytes?).getD #[]

theorem nextByte?_eq_getElem? (machine : Machine) :
    machine.nextByte? = machine.code[machine.registers.pc]? := by
  rw [nextByte?, code]
  cases (machine.heap.get? machine.registers.method).bind HeapObject.bytes? <;> simp

/-- The machine is about to compare the two uppermost operands on the spot, and the
comparison yields `result`. -/
inductive Compares (machine : Machine) : (result : Bool) → Prop where
  | integers {byte : UInt8} {a b : SmallInt} {result : Bool}
      (next : machine.nextByte? = some byte)
      (two : 1 ≤ machine.registers.sp)
      (receiver : machine.heap.fetch machine.registers.activeContext (machine.registers.sp - 1)
        = .ok (.small a))
      (argument : machine.heap.fetch machine.registers.activeContext machine.registers.sp
        = .ok (.small b))
      (compared : Branch.compare? byte a.val b.val = some result) :
      Compares machine result
  | identity {a b : Value}
      (next : machine.nextByte? = some 198)
      (two : 1 ≤ machine.registers.sp)
      (receiver : machine.heap.fetch machine.registers.activeContext (machine.registers.sp - 1)
        = .ok a)
      (argument : machine.heap.fetch machine.registers.activeContext machine.registers.sp
        = .ok b) :
      Compares machine (decide (a = b))

/-- The machine further on in the running method. -/
def ahead (machine : Machine) (distance : Nat) : Machine :=
  { machine with registers.pc := machine.registers.pc + distance }

@[simp] theorem ahead_ahead (machine : Machine) (first second : Nat) :
    (machine.ahead first).ahead second = machine.ahead (first + second) := by
  simp [ahead, Nat.add_assoc]

/-- The machine once operands are taken off the stack. -/
def dropped (machine : Machine) (count : Nat) : Machine :=
  { machine with registers.sp := machine.registers.sp - count }

/-- The machine once a value is pushed on the stack. -/
def pushed (machine : Machine) (value : Value) : Machine :=
  { machine with
    heap := machine.heap.setField machine.registers.activeContext
      (machine.registers.sp + 1) value
    registers.sp := machine.registers.sp + 1 }

/-- The machine once an instruction is counted. -/
def counted (machine : Machine) : Machine := { machine with bytecodes := machine.bytecodes + 1 }

/-- The machine once it has read a comparison and taken its operands off the stack. -/
def compared (machine : Machine) : Machine := ((machine.ahead 1).counted).dropped 2

/-- Nothing tells the second machine from the first one, except perhaps the slot of the
active context that lies above the top of the stack. -/
def SameToTop (first second : Machine) : Prop :=
  second = first ∨ ∃ above, second = first.withHeap
    (first.heap.setField first.registers.activeContext (first.registers.sp + 1) above)

namespace SameToTop

variable {first second : Machine}

theorem registers (same : first.SameToTop second) : second.registers = first.registers := by
  rcases same with rfl | ⟨above, rfl⟩ <;> rfl

theorem get? (same : first.SameToTop second) {value : Value}
    (other : value ≠ first.registers.activeContext) :
    second.heap.get? value = first.heap.get? value := by
  rcases same with rfl | ⟨above, rfl⟩
  · rfl
  · exact first.heap.get?_update_other other.symm _

/-- The slots up to the top of the stack are the same. -/
theorem fetch (same : first.SameToTop second) {slot : Nat} (inUse : slot ≤ first.registers.sp) :
    second.heap.fetch second.registers.activeContext slot =
      first.heap.fetch first.registers.activeContext slot := by
  rcases same with rfl | ⟨above, rfl⟩
  · rfl
  · exact Heap.fetch_setField_other (.inr (by omega))

end SameToTop

end Machine

namespace Run

variable {machine : Machine} {result : Bool}

theorem nextByte_ok {byte : UInt8} (next : machine.nextByte? = some byte) :
    nextByte machine = .ok byte (machine.ahead 1) := by
  rw [Machine.nextByte?] at next
  cases owned : machine.heap.get? machine.registers.method with
  | none => simp [owned] at next
  | some owner =>
    have read : object machine.registers.method machine = .ok owner machine :=
      readHeap_ok (Heap.object_eq_ok_iff.mpr owned)
    rw [owned, Option.bind_some] at next
    rw [nextByte, bind_ok getRegisters_apply, bind_ok read, next]
    rfl

theorem operand_ok {depth : Nat} {value : Value} (deep : depth ≤ machine.registers.sp)
    (found : machine.heap.fetch machine.registers.activeContext (machine.registers.sp - depth)
      = .ok value) : operand depth machine = .ok value machine := by
  rw [operand, bind_ok getRegisters_apply, if_pos deep]
  exact fetch_ok found

theorem push_ok {value : Value} {fields : Array Value}
    (readable : machine.heap.pointers machine.registers.activeContext = .ok fields)
    (inside : machine.registers.sp + 1 < fields.size) :
    push value machine = .ok () (machine.pushed value) := by
  have stored : machine.heap.store machine.registers.activeContext (machine.registers.sp + 1) value
      = .ok (machine.heap.setField machine.registers.activeContext
          (machine.registers.sp + 1) value) :=
    Heap.store_eq_ok_iff.mpr ⟨⟨fields, readable, inside⟩, rfl⟩
  rw [push, bind_ok (modifyRegisters_apply _), bind_ok getRegisters_apply, store]
  simp only [stored]
  rfl

/-- A jump on a truth value takes it off the stack and goes on behind the jump or where
it leads. -/
theorem jumpIf_ok (sender : Reply.Sender) (condition : Bool) (distance : Nat)
    (apart : machine.registers.specials.true ≠ machine.registers.specials.false)
    (used : machine.registers.sp ≠ 0)
    (top : machine.heap.fetch machine.registers.activeContext machine.registers.sp
      = .ok (machine.registers.specials.boolean result)) :
    jumpIf sender condition distance machine =
      .ok () ((machine.ahead (if result = condition then distance else 0)).dropped 1) := by
  have popped : pop machine =
      .ok (machine.registers.specials.boolean result) (machine.dropped 1) := by
    have read : Run.top machine = .ok (machine.registers.specials.boolean result) machine :=
      operand_ok (Nat.zero_le _) top
    rw [pop, bind_ok read, bind_ok getRegisters_apply, if_neg used]
    rfl
  rw [jumpIf, bind_ok popped, bind_ok getRegisters_apply]
  have specials : (machine.dropped 1).registers.specials = machine.registers.specials := rfl
  by_cases taken : result = condition
  · rw [specials, if_pos ((Specials.boolean_inj apart).mpr taken), if_pos taken]
    rfl
  · have other : result = !condition := by cases result <;> cases condition <;> simp_all
    rw [specials, if_neg (taken ∘ (Specials.boolean_inj apart).mp),
      if_neg (not_not.mpr ((Specials.boolean_inj apart).mpr other)), if_neg taken]
    rfl

/-- A conditional jump with all its bytes goes as far as its bits say. -/
theorem execute_jump_ok (sender : Reply.Sender) {distance : Nat}
    (apart : machine.registers.specials.true ≠ machine.registers.specials.false)
    (used : machine.registers.sp ≠ 0)
    (top : machine.heap.fetch machine.registers.activeContext machine.registers.sp
      = .ok (machine.registers.specials.boolean result))
    (reaches : Branch.reach? result machine.code machine.registers.pc = some distance) :
    (nextByte >>= execute sender) machine = .ok () ((machine.ahead distance).dropped 1) := by
  rw [← Branch.advance?_eq_reach?, Branch.advance?] at reaches
  split at reaches
  · rename_i offset decoded
    rcases Option.map_eq_some_iff.mp decoded with ⟨byte, next, decoded⟩
    cases reaches
    rw [bind_ok (nextByte_ok ((machine.nextByte?_eq_getElem?).trans next)), execute, decoded]
    have jumped : jumpIf sender false offset (machine.ahead 1) = .ok ()
        (((machine.ahead 1).ahead (if result = false then offset else 0)).dropped 1) :=
      jumpIf_ok sender false offset apart used top
    refine jumped.trans ?_
    cases result <;> simp
  · rename_i condition page decoded
    rcases Option.map_eq_some_iff.mp decoded with ⟨byte, next, decoded⟩
    rcases Option.map_eq_some_iff.mp reaches with ⟨low, second, rfl⟩
    rw [bind_ok (nextByte_ok ((machine.nextByte?_eq_getElem?).trans next)), execute, decoded]
    have read : nextByte (machine.ahead 1) = .ok low (machine.ahead 2) := by
      rw [nextByte_ok ((machine.ahead 1).nextByte?_eq_getElem?.trans second), Machine.ahead_ahead]
    have jumped : jumpIf sender condition (page * 256 + low.toNat) (machine.ahead 2) = .ok ()
        (((machine.ahead 2).ahead
          (if result = condition then page * 256 + low.toNat else 0)).dropped 1) :=
      jumpIf_ok sender condition _ apart used top
    refine ((bind_ok read).trans jumped).trans ?_
    rw [Machine.ahead_ahead]
  · cases reaches

/-- On the spot a truth value is pushed, or the jump taken that would pop it. -/
theorem pushOrBranch_apply (machine : Machine) {fields : Array Value}
    (owned : ∃ owner, machine.heap.get? machine.registers.method = some owner)
    (readable : machine.heap.pointers machine.registers.activeContext = .ok fields)
    (inside : machine.registers.sp + 1 < fields.size) (result : Bool) :
    pushOrBranch result machine = .ok ()
      (match Branch.reach? result machine.code machine.registers.pc with
      | some distance => machine.ahead distance
      | none => machine.pushed (machine.registers.specials.boolean result)) := by
  rcases owned with ⟨owner, owned⟩
  have read : object machine.registers.method machine = .ok owner machine :=
    readHeap_ok (Heap.object_eq_ok_iff.mpr owned)
  have code : owner.bytes?.getD #[] = machine.code := by rw [Machine.code, owned, Option.bind_some]
  rw [pushOrBranch, bind_ok getRegisters_apply, bind_ok read, Branch.advance?_eq_reach?, code]
  cases Branch.reach? result machine.code machine.registers.pc with
  | some distance => rfl
  | none => exact push_ok readable inside

/-- Two integers are compared on the spot. -/
theorem inlineArithmetic_compares {message : ArithmeticMessage} {comparison : Comparison}
    {a b : SmallInt} {after : Machine} (meaning : message.meaning = .comparison comparison)
    (two : 1 ≤ machine.registers.sp)
    (receiver : machine.heap.fetch machine.registers.activeContext (machine.registers.sp - 1)
      = .ok (.small a))
    (argument : machine.heap.fetch machine.registers.activeContext machine.registers.sp
      = .ok (.small b))
    (ended : pushOrBranch (comparison.onIntegers a.val b.val) (machine.dropped 2)
      = .ok () after) :
    inlineArithmetic message machine = .ok true after := by
  have pair : integerPair machine = .ok (some (a.val, b.val)) machine := by
    rw [integerPair, bind_ok (operand_ok two receiver)]
    rw [bind_ok (operand_ok (Nat.zero_le _) argument)]
    rfl
  rw [inlineArithmetic, meaning]
  refine (bind_ok pair).trans ?_
  refine (bind_ok (modifyRegisters_apply _)).trans ?_
  exact bind_ok ended

/-- Any two values are compared for identity. -/
theorem inlineCommon_compares {a b : Value} {after : Machine} (two : 1 ≤ machine.registers.sp)
    (receiver : machine.heap.fetch machine.registers.activeContext (machine.registers.sp - 1)
      = .ok a)
    (argument : machine.heap.fetch machine.registers.activeContext machine.registers.sp = .ok b)
    (ended : pushOrBranch (decide (a = b)) (machine.dropped 2) = .ok () after) :
    inlineCommon .identical machine = .ok true after := by
  rw [inlineCommon, bind_ok (operand_ok (Nat.zero_le _) argument), bind_ok (operand_ok two receiver)]
  refine (bind_ok (modifyRegisters_apply _)).trans ?_
  exact bind_ok ended

/-- A comparison takes its operands off the stack and goes on with the truth value. -/
theorem stepBy_compares (sender : Reply.Sender) (compares : machine.Compares result)
    {after : Machine} (ended : pushOrBranch result machine.compared = .ok () after) :
    stepBy sender machine = .ok () after := by
  have started {byte : UInt8} (next : machine.nextByte? = some byte) :
      stepBy sender machine = execute sender byte (machine.ahead 1).counted := by
    rw [stepBy, bind_ok (nextByte_ok next)]
    rfl
  cases compares with
  | integers next two receiver argument compared =>
    rcases Opcode.ofByte_compare compared with ⟨message, comparison, decoded, meaning, rfl⟩
    have inlined : inlineArithmetic message (machine.ahead 1).counted = .ok true after :=
      inlineArithmetic_compares meaning two receiver argument ended
    rw [started next, execute, decoded]
    exact bind_ok inlined
  | identity next two receiver argument =>
    have inlined : inlineCommon .identical (machine.ahead 1).counted = .ok true after :=
      inlineCommon_compares two receiver argument ended
    have decoded : Opcode.ofByte 198 = .common .identical := by decide
    rw [started next, execute, decoded]
    exact bind_ok inlined

/-- Pushing a value leaves the bytes of every object as they are, even where it is the
running method that is pushed into. -/
theorem bytes_pushed (machine : Machine) (value other : Value) :
    ((machine.pushed value).heap.get? other).map HeapObject.bytes? =
      (machine.heap.get? other).map HeapObject.bytes? := by
  by_cases own : machine.registers.activeContext = other
  · subst own
    refine (congrArg _ (machine.heap.get?_update_same _ _)).trans ?_
    cases machine.heap.get? machine.registers.activeContext with
    | none => rfl
    | some owner => exact congrArg some (Body.bytes?_mapPointers _ _)
  · exact congrArg _ (machine.heap.get?_update_other own _)

theorem code_pushed (machine : Machine) (value : Value) :
    (machine.pushed value).code = machine.code := by
  have joined (found : Option HeapObject) :
      found.bind HeapObject.bytes? = (found.map HeapObject.bytes?).join := by cases found <;> rfl
  rw [Machine.code, Machine.code, joined, joined]
  exact congrArg (·.join.getD #[]) (bytes_pushed machine value _)

/-- Apart, the truth value is pushed first. -/
theorem pushThenJump_apply (sender : Reply.Sender) (machine : Machine) {fields : Array Value}
    (apart : machine.registers.specials.true ≠ machine.registers.specials.false)
    (owned : ∃ owner, machine.heap.get? machine.registers.method = some owner)
    (readable : machine.heap.pointers machine.registers.activeContext = .ok fields)
    (inside : machine.registers.sp + 1 < fields.size) (result : Bool) :
    pushThenJump sender result machine = .ok ()
      (match Branch.reach? result machine.code machine.registers.pc with
      | some distance =>
        ((machine.pushed (machine.registers.specials.boolean result)).ahead distance).dropped 1
      | none => machine.pushed (machine.registers.specials.boolean result)) := by
  let value := machine.registers.specials.boolean result
  rcases owned with ⟨owner, owned⟩
  have bytes := bytes_pushed machine value machine.registers.method
  rw [owned] at bytes
  rcases Option.map_eq_some_iff.mp bytes with ⟨pushed, still, bytes⟩
  have read : object machine.registers.method (machine.pushed value) =
      .ok pushed (machine.pushed value) := readHeap_ok (Heap.object_eq_ok_iff.mpr still)
  have code : pushed.bytes?.getD #[] = machine.code := by
    rw [bytes, Machine.code, owned, Option.bind_some]
  rw [pushThenJump, bind_ok getRegisters_apply, bind_ok (push_ok readable inside)]
  rw [bind_ok read, code, Branch.stands_eq_isSome result]
  cases reached : Branch.reach? result machine.code machine.registers.pc with
  | none => rfl
  | some distance =>
    rw [← code_pushed machine value] at reached
    exact execute_jump_ok sender apart (Nat.succ_ne_zero _)
      (Heap.fetch_setField_same readable inside value) reached

end Run

/-! ## The two ways compared -/

namespace Machine

variable {machine : Machine} {result : Bool}

/-- A machine that is about to compare runs a method that is there and has its operands in
the fields of its active context. -/
theorem Compares.operands (compares : machine.Compares result) :
    (∃ owner, machine.heap.get? machine.registers.method = some owner) ∧
      1 ≤ machine.registers.sp ∧ ∃ fields,
        machine.heap.pointers machine.registers.activeContext = .ok fields ∧
          machine.registers.sp < fields.size := by
  have owned {byte : UInt8} (next : machine.nextByte? = some byte) :
      ∃ owner, machine.heap.get? machine.registers.method = some owner := by
    rcases Option.bind_eq_some_iff.mp next with ⟨bytes, found, -⟩
    rcases Option.bind_eq_some_iff.mp found with ⟨owner, owned, -⟩
    exact ⟨owner, owned⟩
  have inside {value : Value} (argument :
      machine.heap.fetch machine.registers.activeContext machine.registers.sp = .ok value) :
      ∃ fields, machine.heap.pointers machine.registers.activeContext = .ok fields ∧
        machine.registers.sp < fields.size := by
    rcases Heap.fetch_eq_ok_iff.mp argument with ⟨fields, readable, found⟩
    exact ⟨fields, readable, (Array.getElem?_eq_some_iff.mp found).1⟩
  cases compares with
  | integers next two _ argument _ => exact ⟨owned next, two, inside argument⟩
  | identity next two _ argument => exact ⟨owned next, two, inside argument⟩

/-- Whatever method runs, wherever it stands and however messages are sent: a comparison
that takes the jump after it leaves the machine that it leaves when the truth value is
pushed and the jump, if there is a complete one, executed. It goes as far as the bits of
the jump say; without a jump the truth value lies on the stack and the next instruction is
next. -/
theorem fused_branch_unobservable (sender : Reply.Sender)
    (apart : machine.registers.specials.true ≠ machine.registers.specials.false)
    (compares : machine.Compares result) :
    ∃ fused plain, Run.stepBy sender machine = .ok () fused ∧
      Run.pushThenJump sender result machine.compared = .ok () plain ∧
      fused.SameToTop plain ∧
      match Branch.reach? result machine.code (machine.registers.pc + 1) with
      | some distance => fused = machine.compared.ahead distance
      | none => fused = machine.compared.pushed (machine.registers.specials.boolean result) ∧
          fused.heap.fetch fused.registers.activeContext fused.registers.sp =
            .ok (machine.registers.specials.boolean result) := by
  rcases compares.operands with ⟨owned, two, fields, readable, used⟩
  have inside : machine.compared.registers.sp + 1 < fields.size := by
    have lower : machine.compared.registers.sp = machine.registers.sp - 2 := rfl
    omega
  have code : Branch.reach? result machine.compared.code machine.compared.registers.pc =
    Branch.reach? result machine.code (machine.registers.pc + 1) := rfl
  have fused := Run.stepBy_compares sender compares
    (Run.pushOrBranch_apply machine.compared owned readable inside result)
  have plain := Run.pushThenJump_apply sender machine.compared apart owned readable inside result
  rw [code] at fused plain
  refine ⟨_, _, fused, plain, ?_, ?_⟩
  · cases Branch.reach? result machine.code (machine.registers.pc + 1) with
    | none => exact .inl rfl
    | some distance => exact .inr ⟨_, rfl⟩
  · cases Branch.reach? result machine.code (machine.registers.pc + 1) with
    | none => exact ⟨rfl, Heap.fetch_setField_same readable inside _⟩
    | some distance => rfl

/-- A machine that is about to compare zero with itself; the jump that follows is taken if
they are different. -/
def comparingMachine : Machine :=
  let nil : Value := .object 0
  let machine := sampleMachine
    [sampleNode .zero #[], sampleNode .zero #[], sampleNode .zero #[], sampleNode .zero #[],
      sampleNode .zero #[], sampleNode .zero #[], sampleMethod 0 [] #[182, 158],
      sampleNode .zero #[nil, nil, nil, .object 6, nil, .object 8, .zero, .zero],
      sampleNode (.object 1) #[]]
    10 nil
  { machine with
    registers.specials.true := .object 1
    registers.sp := 7 }

theorem fused_branch_comparingMachine :
    comparingMachine.registers.specials.true ≠ comparingMachine.registers.specials.false ∧
      comparingMachine.Compares true ∧
      Branch.reach? true comparingMachine.code (comparingMachine.registers.pc + 1) = some 1 ∧
      ∃ fused plain, Run.step comparingMachine = .ok () fused ∧
        Run.pushThenJump (Run.sendToClass nestingLimit) true comparingMachine.compared
          = .ok () plain ∧
        fused.SameToTop plain ∧ fused = comparingMachine.compared.ahead 1 := by
  have apart : comparingMachine.registers.specials.true ≠
    comparingMachine.registers.specials.false := by decide +kernel
  have next : comparingMachine.nextByte? = some 182 := by decide +kernel
  have operand (slot : Nat) (inUse : slot = 6 ∨ slot = 7) :
      comparingMachine.heap.fetch comparingMachine.registers.activeContext slot
        = .ok (.small .zero) := by
    rcases inUse with rfl | rfl <;> decide +kernel
  have compares : comparingMachine.Compares true :=
    .integers next (by decide) (operand 6 (.inl rfl)) (operand 7 (.inr rfl)) (by decide)
  have reaches : Branch.reach? true comparingMachine.code (comparingMachine.registers.pc + 1)
    = some 1 := by decide +kernel
  rcases fused_branch_unobservable (Run.sendToClass nestingLimit) apart compares with
    ⟨fused, plain, ended, apartEnded, same, exact⟩
  rw [reaches] at exact
  exact ⟨apart, compares, reaches, fused, plain, ended, apartEnded, same, exact⟩

end Machine

end Smalltalk

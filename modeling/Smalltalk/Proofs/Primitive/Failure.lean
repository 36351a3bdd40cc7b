import Smalltalk.Proofs.Machine.Evaluation
import Smalltalk.Proofs.Machine.References

namespace Smalltalk

/-! A primitive that fails has done nothing, except that it may have looked up methods.
Every primitive first reads what it needs; once it begins to change the machine it
answers, or stops with an error. -/

/-- A walk through the objects that finds none is not remembered. -/
theorem Heap.nextInstance_of_none {heap : Heap} {start : Nat} {species : Option Value}
    (missed : (heap.nextInstance start species).1 = none) :
    (heap.nextInstance start species).2 = heap := by
  simp only [nextInstance] at missed ⊢
  cases found : heap.nextPosition? start species with
  | none => rfl
  | some position =>
    rcases Option.map_eq_some_iff.mp found with ⟨later, seen, rfl⟩
    rcases List.findIdx?_eq_some_iff_getElem.mp seen with ⟨bounded, -⟩
    rw [List.length_drop, Array.length_toList] at bounded
    have inside : start + later < heap.table.size := by omega
    rw [found] at missed
    simp [inside] at missed

namespace Run

variable {α β : Type} {run : Run α} {next : α → Run β}

/-! ## Computations that read -/

/-- The computation changes nothing but the method cache. -/
abbrev Looks (run : Run α) : Prop := ∀ machine, Maintains (CacheApart machine) run fun _ => True

theorem CacheApart.refl (machine : Machine) : CacheApart machine machine := ⟨_, rfl⟩

theorem CacheApart.trans {first middle last : Machine} (early : CacheApart first middle)
    (late : CacheApart middle last) : CacheApart first last := by
  rcases early with ⟨between, rfl⟩
  rcases late with ⟨cache, rfl⟩
  exact ⟨cache, rfl⟩

namespace Looks

theorem pure {result : α} : Looks (Pure.pure result) := fun _ => .pure trivial

theorem throw {stop : Stop} : Looks (MonadExcept.throw stop : Run α) := fun _ => .throw

theorem bind (first : Looks run) (second : ∀ result, Looks (next result)) :
    Looks (run >>= next) :=
  fun machine => (first machine).bind fun result _ => second result machine

theorem ite {condition : Prop} [Decidable condition] {first second : Run α}
    (yes : Looks first) (no : Looks second) : Looks (if condition then first else second) :=
  fun machine => .ite (fun _ => yes machine) fun _ => no machine

theorem get : Looks (MonadState.get : Run Machine) := fun _ => maintains_get

theorem getRegisters : Looks getRegisters := fun _ => maintains_getRegisters

theorem getHeap : Looks getHeap := fun _ => maintains_getHeap

theorem getNil : Looks getNil := fun _ => maintains_getNil

theorem readHeap {query : Heap → Except MemoryError α} : Looks (readHeap query) :=
  fun _ => maintains_readHeap

theorem fetch {object : Value} {index : Nat} : Looks (fetch object index) := readHeap

theorem specialObject {index : Nat} : Looks (specialObject index) :=
  getRegisters.bind fun _ => fetch

theorem classOf {value : Value} : Looks (classOf value) :=
  ite (getRegisters.bind fun _ => pure) (readHeap.bind fun _ => pure)

theorem operand {depth : Nat} : Looks (operand depth) :=
  getRegisters.bind fun _ => ite fetch throw

theorem receiverOf {count : Nat} : Looks (receiverOf count) := operand

theorem argument {count index : Nat} : Looks (argument count index) := ite operand throw

theorem wordOf {value : Value} : Looks (wordOf value) := by
  cases value with
  | small n => exact pure
  | object slot =>
    refine get.bind fun machine => ?_
    cases machine.heap.get? (.object slot) with
    | none => exact pure
    | some object => exact ite pure pure

theorem homeOf {context : Value} : Looks (homeOf context) :=
  fetch.bind fun _ => ite fetch pure

theorem lookupMethod {selector species : Value} : Looks (lookupMethod selector species) :=
  fun _ => lookupMethod_cacheApart selector species

theorem inheritsFrom {ancestor : Value} {budget : Nat} {species : Value} :
    Looks (inheritsFrom ancestor budget species) := by
  induction budget generalizing species with
  | zero => exact getNil.bind fun _ => ite pure (ite pure throw)
  | succ budget induction =>
    exact getNil.bind fun _ => ite pure (ite pure (fetch.bind fun _ => induction))

end Looks

/-! ## Computations that answer -/

/-- The computation does not end without having answered. -/
def Answers (run : Run Bool) : Prop :=
  ∀ machine, run.Ensures machine fun answered _ => answered = true

namespace Answers

variable {next : α → Run Bool}

theorem pure : Answers (Pure.pure true) := fun _ => .pure rfl

theorem bind (second : ∀ result, Answers (next result)) : Answers (run >>= next) := by
  intro machine
  have any : run.Ensures machine fun _ _ => True := fun _ _ _ => trivial
  exact any.bind fun result after _ => second result after

theorem ite {condition : Prop} [Decidable condition] {first second : Run Bool}
    (yes : Answers first) (no : Answers second) :
    Answers (if condition then first else second) := by
  split
  · exact yes
  · exact no

theorem succeed {count : Nat} {result : Value} : Answers (succeed count result) :=
  bind fun _ => pure

end Answers

/-! ## Computations that fail cleanly -/

/-- The computation ends without an answer only as long as nothing but the method cache has
changed. -/
def Clean (run : Run Bool) : Prop :=
  ∀ machine, run.Ensures machine fun answered after => answered = false → CacheApart machine after

theorem Answers.clean {run : Run Bool} (answers : Answers run) : Clean run :=
  fun machine => (answers machine).mono fun _ _ answered failed =>
    absurd (failed.symm.trans answered) Bool.false_ne_true

namespace Clean

variable {next : α → Run Bool}

theorem pure {answered : Bool} : Clean (Pure.pure answered) :=
  fun machine => .pure fun _ => .refl machine

theorem bind (first : Looks run) (second : ∀ result, Clean (next result)) :
    Clean (run >>= next) := by
  intro machine
  refine (first machine machine (.refl machine)).bind fun result between looked => ?_
  refine (second result between).mono fun answered after clean failed => ?_
  exact looked.1.trans (clean failed)

theorem ite {condition : Prop} [Decidable condition] {first second : Run Bool}
    (yes : Clean first) (no : Clean second) : Clean (if condition then first else second) := by
  split
  · exact yes
  · exact no

/-- What comes after a part that has answered has to answer too. -/
theorem andThen {first second : Run Bool} (clean : Clean first) (answers : Answers second) :
    Clean (do
      if !(← first) then return false
      second) := by
  intro machine
  refine (clean machine).bind fun answered between kept => ?_
  cases answered with
  | false => exact .pure fun _ => kept rfl
  | true => exact (answers between).mono fun _ _ answered failed =>
      absurd (failed.symm.trans answered) Bool.false_ne_true

theorem succeed {count : Nat} {result : Value} : Clean (succeed count result) :=
  Answers.succeed.clean

/-- Answering with what is made for it. -/
theorem succeedWith {run : Run Value} {count : Nat} : Clean (run >>= Run.succeed count) :=
  (Answers.bind fun _ => .succeed).clean

end Clean

end Run

namespace Reply

open Run

/-! ## Arithmetic -/

theorem integerOperands_looks {count : Nat} : Looks (integerOperands count) :=
  Looks.receiverOf.bind fun _ => Looks.argument.bind fun _ => .pure

theorem integerOperation_clean (operation : IntegerOperation) (count : Nat) :
    Clean (integerOperation operation count) := by
  refine .ite .pure (.bind integerOperands_looks fun operands => ?_)
  rcases operands with - | ⟨a, b⟩
  · exact .pure
  · dsimp only
    cases operation.value? a b with
    | none => exact .pure
    | some result => exact .succeed

theorem integerComparison_clean (comparison : Comparison) (count : Nat) :
    Clean (integerComparison comparison count) := by
  refine .ite .pure (.bind integerOperands_looks fun operands => ?_)
  rcases operands with - | ⟨a, b⟩
  · exact .pure
  · exact .succeedWith

theorem pointOf_clean (count : Nat) : Clean (pointOf count) := by
  refine .ite .pure (.bind .receiverOf fun x => .bind .argument fun y => ?_)
  exact .ite .pure .succeedWith

theorem floatOf_looks {value : Value} : Looks (floatOf value) := by
  cases value with
  | small n => exact .pure
  | object slot =>
    refine Looks.get.bind fun machine => ?_
    cases machine.heap.get? (.object slot) with
    | none => exact .pure
    | some object => exact .pure

theorem floatOperands_looks {count : Nat} : Looks (floatOperands count) := by
  refine Looks.receiverOf.bind fun receiver => .ite .pure ?_
  refine floatOf_looks.bind fun a => Looks.argument.bind fun argument => ?_
  exact floatOf_looks.bind fun b => .pure

theorem floatOperation_clean (operation : FloatOperation) (count : Nat) :
    Clean (floatOperation operation count) := by
  refine .ite .pure (.bind floatOperands_looks fun operands => ?_)
  rcases operands with - | ⟨a, b⟩
  · exact .pure
  · exact .succeedWith

theorem floatDivision_clean (count : Nat) : Clean (floatDivision count) := by
  refine .ite .pure (.bind .argument fun argument => .bind floatOf_looks fun divisor => ?_)
  exact .ite .pure (floatOperation_clean .divide count)

theorem floatComparison_clean (comparison : Comparison) (count : Nat) :
    Clean (floatComparison comparison count) := by
  refine .ite .pure (.bind floatOperands_looks fun operands => ?_)
  rcases operands with - | ⟨a, b⟩
  · exact .pure
  · exact .succeedWith

theorem asFloat_clean (count : Nat) : Clean (asFloat count) := by
  refine .bind .receiverOf fun receiver => ?_
  cases receiver with
  | small n => exact .succeedWith
  | object slot => exact .pure

theorem truncated_clean (count : Nat) : Clean (truncated count) := by
  refine .bind .receiverOf fun receiver => .ite .pure (.bind floatOf_looks fun number => ?_)
  cases (number.bind Float64.truncate?).bind Value.ofInt? with
  | none => exact .pure
  | some result => exact .succeed

/-! ## Elements, fields and literals -/

theorem indexedPart_looks {object : Value} {chars : Bool} : Looks (indexedPart object chars) := by
  refine .ite .pure (Looks.classOf.bind fun species => Looks.readHeap.bind fun format => ?_)
  refine .ite .pure (Looks.readHeap.bind fun found => ?_)
  cases found.body with
  | pointers fields => exact .pure
  | words words => exact .pure
  | bytes bytes => exact .pure
  | method literals bytecode => exact .pure
  | float bits => exact .pure

theorem elementAt_clean (chars : Bool) (count : Nat) : Clean (elementAt chars count) := by
  refine .ite .pure (.bind .receiverOf fun receiver => .bind indexedPart_looks fun part => ?_)
  cases part with
  | none => exact .pure
  | some part =>
    refine .bind .argument fun index => ?_
    cases place? index part.size with
    | none => exact .pure
    | some place =>
      have answer : Answers (do succeed count (← readElement part place)) := .bind fun _ => .succeed
      exact (Answers.bind fun _ => .ite (.bind fun _ => answer) answer).clean

theorem characterCode_looks {value : Value} : Looks (characterCode value) := by
  refine .ite .pure (Looks.classOf.bind fun species => Looks.getRegisters.bind fun registers => ?_)
  exact .ite .pure (Looks.fetch.bind fun code => .pure)

theorem writeElement_clean (part : IndexedPart) (place : Nat) (value : Value) :
    Clean (writeElement part place value) := by
  rcases part with ⟨object, kind, fixed, size⟩
  cases kind with
  | pointers => exact (Answers.bind fun _ => .pure).clean
  | words =>
    refine .bind .wordOf fun word => ?_
    cases word with
    | none => exact .pure
    | some word => exact (Answers.bind fun _ => .pure).clean
  | bytes =>
    rw [writeElement]
    dsimp only
    cases value.int? with
    | none => exact .pure
    | some code => exact .ite .pure (Answers.bind fun _ => .pure).clean
  | chars =>
    refine .bind characterCode_looks fun code => ?_
    cases code with
    | none => exact .pure
    | some code => exact .ite .pure (Answers.bind fun _ => .pure).clean

theorem setElementAt_clean (chars : Bool) (count : Nat) : Clean (setElementAt chars count) := by
  refine .ite .pure (.bind .receiverOf fun receiver => .bind indexedPart_looks fun part => ?_)
  cases part with
  | none => exact .pure
  | some part =>
    refine .bind .argument fun index => ?_
    cases place? index part.size with
    | none => exact .pure
    | some place =>
      refine .bind .argument fun value => (writeElement_clean part place value).andThen ?_
      exact .bind fun _ => .ite (.bind fun _ => .succeed) .succeed

theorem sizeOf_clean (count : Nat) : Clean (sizeOf count) := by
  refine .bind .receiverOf fun receiver => .bind indexedPart_looks fun part => ?_
  cases part with
  | some part => exact .succeed
  | none =>
    refine .bind .getHeap fun heap => ?_
    cases heap.get? receiver with
    | none => exact .pure
    | some object =>
      rcases object with ⟨species, format, hash, body⟩
      cases body with
      | method literals bytecode => exact .succeed
      | pointers fields => exact .pure
      | words words => exact .pure
      | bytes bytes => exact .pure
      | float bits => exact .pure

theorem literalsOf_looks {receiver : Value} : Looks (literalsOf receiver) := by
  refine Looks.getHeap.bind fun heap => ?_
  cases heap.get? receiver with
  | none => exact .pure
  | some object => exact .pure

theorem fieldAt_clean (size count : Nat) : Clean (fieldAt size count) := by
  refine .bind .argument fun index => ?_
  cases place? index size with
  | none => exact .pure
  | some place => exact .bind .receiverOf fun receiver => .succeedWith

theorem setFieldAt_clean (size count : Nat) : Clean (setFieldAt size count) := by
  refine .bind .argument fun index => ?_
  cases place? index size with
  | none => exact .pure
  | some place =>
    exact (Answers.bind fun _ => .bind fun _ => .bind fun _ => .succeed).clean

theorem literalAt_clean (count : Nat) : Clean (literalAt count) := by
  refine .bind .receiverOf fun receiver => .bind literalsOf_looks fun size => ?_
  cases size with
  | none => exact .pure
  | some size => exact fieldAt_clean size count

theorem setLiteralAt_clean (count : Nat) : Clean (setLiteralAt count) := by
  refine .bind .receiverOf fun receiver => .bind literalsOf_looks fun size => ?_
  cases size with
  | none => exact .pure
  | some size => exact setFieldAt_clean size count

theorem instanceVariableAt_clean (count : Nat) : Clean (instanceVariableAt count) :=
  .bind .receiverOf fun _ => .bind .getHeap fun _ => fieldAt_clean _ count

theorem setInstanceVariableAt_clean (count : Nat) : Clean (setInstanceVariableAt count) :=
  .bind .receiverOf fun _ => .bind .getHeap fun _ => setFieldAt_clean _ count

theorem replaceFromTo_clean (count : Nat) : Clean (replaceFromTo count) := by
  refine .ite .pure (.bind .receiverOf fun receiver => .bind .argument fun replacement => ?_)
  refine .bind .argument fun start => .bind .argument fun stop => .bind .argument fun origin => ?_
  split
  · refine .bind indexedPart_looks fun target => .bind indexedPart_looks fun source => ?_
    split
    · refine .ite .pure (.ite .pure ?_)
      split <;> exact (Answers.bind fun _ => .bind fun _ => .pure).clean
    · exact .pure
  · exact .pure

/-! ## Objects -/

theorem classFormat?_looks {species : Value} : Looks (classFormat? species) :=
  .ite .pure (Looks.getHeap.bind fun _ => .pure)

theorem basicNew_clean (count : Nat) : Clean (basicNew count) := by
  refine .bind .receiverOf fun species => .bind classFormat?_looks fun format => ?_
  cases format with
  | none => exact .pure
  | some format => exact .ite .pure .succeedWith

theorem basicNewWithSize_clean (count : Nat) : Clean (basicNewWithSize count) := by
  refine .bind .receiverOf fun species => .bind .argument fun size => ?_
  cases size.nat? with
  | none => exact .pure
  | some size =>
    refine .bind classFormat?_looks fun format => ?_
    cases format with
    | none => exact .pure
    | some format => exact .ite .pure .succeedWith

theorem newMethod_clean (count : Nat) : Clean (Reply.newMethod count) := by
  refine .ite .pure (.bind .receiverOf fun species => ?_)
  refine .bind .argument fun header => .bind .argument fun size => ?_
  split
  · exact .bind .getNil fun nil => .succeedWith
  · exact .pure

theorem copy_clean (count : Nat) : Clean (Reply.copy count) :=
  .bind .receiverOf fun _ => .ite .succeed .succeedWith

theorem identityHash_clean (count : Nat) : Clean (identityHash count) :=
  .bind .receiverOf fun _ => .ite .pure (.bind .getHeap fun _ => .succeed)

theorem nextFrom_ensures (machine : Machine) (start : Nat) (species : Option Value) :
    (nextFrom start species).Ensures machine fun found after => found = none → after = machine := by
  refine (ensures_modifyGet machine _).mono fun found after ended missed => ?_
  rcases walked : machine.heap.nextInstance start species with ⟨first, heap⟩
  rw [walked] at ended
  cases ended
  have same : heap = machine.heap := by
    have unchanged := Heap.nextInstance_of_none ((congrArg Prod.fst walked).trans missed)
    exact (congrArg Prod.snd walked).symm.trans unchanged
  rw [same]

theorem someInstance_clean (count : Nat) : Clean (someInstance count) := by
  refine .bind .receiverOf fun species machine => ?_
  refine (nextFrom_ensures machine 0 (some species)).bind fun found after missed => ?_
  cases found with
  | none => exact .pure fun _ => missed rfl ▸ .refl machine
  | some first =>
    refine (Answers.succeed after).mono fun answered last succeeded failed => ?_
    exact absurd (failed.symm.trans succeeded) Bool.false_ne_true

theorem nextInstance_clean (count : Nat) : Clean (Reply.nextInstance count) := by
  refine .bind .receiverOf fun receiver => .ite .pure ?_
  refine .bind .classOf fun species => .bind .getHeap fun heap => ?_
  cases heap.indexOf? receiver with
  | none => exact .pure
  | some index =>
    refine (Answers.bind fun next => ?_).clean
    cases next with
    | some next => exact .succeed
    | none => exact .bind fun nil => .succeed

theorem someObject_clean (count : Nat) : Clean (someObject count) := by
  refine (Answers.bind fun first => ?_).clean
  cases first with
  | some first => exact .succeed
  | none => exact .bind fun nil => .succeed

theorem nextObject_clean (count : Nat) : Clean (nextObject count) := by
  refine (Answers.bind fun receiver => .bind fun heap => ?_).clean
  cases heap.indexOf? receiver with
  | none => exact .succeed
  | some index =>
    refine .bind fun next => ?_
    cases next with
    | some next => exact .succeed
    | none => exact .succeed

/-! ## Blocks and processes -/

theorem blockCopy_clean (count : Nat) : Clean (blockCopy count) := by
  refine .ite .pure (.bind .operand fun context => .bind .operand fun arguments => ?_)
  refine .bind .get fun machine => .ite .pure (.bind .homeOf fun home => ?_)
  refine (Answers.bind fun _ => .bind fun _ => .bind fun _ =>
    .bind fun _ => .bind fun _ => ?_).clean
  exact .bind fun _ => .bind fun _ => .bind fun _ => .bind fun _ => .bind fun _ => .succeed

theorem blockValue_clean (count : Nat) : Clean (blockValue count) := by
  refine .bind .operand fun block => .ite .pure ?_
  refine .bind .classOf fun species => .bind .getRegisters fun registers => .ite .pure ?_
  refine .bind .readHeap fun arguments => .ite .pure ?_
  refine .bind .fetch fun caller => .bind .getNil fun nil => .ite .pure ?_
  refine (Answers.bind fun _ => .bind fun _ => .bind fun _ => .bind fun _ => ?_).clean
  exact .bind fun _ => .bind fun _ => .bind fun _ => .bind fun _ => .pure

theorem signalSemaphore_clean (count : Nat) : Clean (signalSemaphore count) :=
  .bind .receiverOf fun _ => .bind .getHeap fun _ =>
    .ite .pure (Answers.bind fun _ => .pure).clean

theorem waitSemaphore_clean (count : Nat) : Clean (waitSemaphore count) :=
  .bind .receiverOf fun _ => .bind .getHeap fun _ =>
    .ite .pure (Answers.bind fun _ => .pure).clean

theorem resumeProcess_clean (count : Nat) : Clean (resumeProcess count) :=
  .bind .receiverOf fun _ => .bind .getHeap fun _ =>
    .ite .pure (Answers.bind fun _ => .pure).clean

theorem activeProcess_looks : Looks activeProcess :=
  (Looks.specialObject.bind fun _ => .fetch).bind fun _ => .fetch

theorem suspendProcess_clean (count : Nat) : Clean (suspendProcess count) := by
  refine .bind .receiverOf fun process => .bind activeProcess_looks fun active => ?_
  refine .ite .pure (Answers.bind fun _ => .bind fun _ => ?_).clean
  exact .bind fun _ => .bind fun _ => .pure

theorem yieldActive_clean : Clean yieldActive := (Answers.bind fun _ => .pure).clean

theorem relinquish_clean (count : Nat) : Clean (relinquish count) := by
  refine .ite .pure (.bind .argument fun time => ?_)
  cases time.nat? with
  | none => exact .pure
  | some time => exact (Answers.bind fun _ => .bind fun _ => .pure).clean

/-! ## Computed selectors -/

theorem mismatches_looks {selector species : Value} {count : Nat} :
    Looks (mismatches selector species count) := by
  refine Looks.lookupMethod.bind fun found => ?_
  cases found with
  | none => exact .pure
  | some entry =>
    refine Looks.readHeap.bind fun header => ?_
    cases header with
    | none => exact .pure
    | some header => exact .pure

theorem perform_clean (send : Sender) (count : Nat) : Clean (perform send count) := by
  refine .ite .pure (.bind .argument fun selector => .ite .pure ?_)
  refine .bind .receiverOf fun receiver => .bind .classOf fun species => ?_
  refine .bind mismatches_looks fun mismatched => .ite .pure ?_
  exact (Answers.bind fun _ => .bind fun _ => .bind fun _ => .bind fun _ => .pure).clean

theorem performWithArray_clean (send : Sender) (count : Nat) (selector array species : Value) :
    Clean (performWithArray send count selector array species) := by
  refine .ite .pure (.bind .getRegisters fun registers => .bind .classOf fun arrayClass => ?_)
  refine .ite .pure (.bind .readHeap fun elements => .bind .getHeap fun heap => ?_)
  refine .ite .pure (.bind mismatches_looks fun mismatched => .ite .pure ?_)
  exact (Answers.bind fun _ => .bind fun _ => .bind fun _ => .pure).clean

theorem performWithArguments_clean (send : Sender) (count : Nat) :
    Clean (performWithArguments send count) := by
  refine .ite .pure (.bind .argument fun selector => .bind .argument fun array => ?_)
  refine .bind .receiverOf fun receiver => .bind .classOf fun species => ?_
  exact performWithArray_clean send count selector array species

theorem performInSuperclass_clean (send : Sender) (count : Nat) :
    Clean (performInSuperclass send count) := by
  refine .ite .pure (.bind .argument fun selector => .bind .argument fun array => ?_)
  refine .bind .argument fun lookup => .bind .receiverOf fun receiver => ?_
  refine .bind .classOf fun species => .ite .pure ?_
  refine .bind .getHeap fun heap => .bind .inheritsFrom fun inherits => .ite .pure ?_
  exact performWithArray_clean send count selector array lookup

/-! ## The system -/

theorem identical_clean (count : Nat) : Clean (identical count) := by
  refine .ite .pure (.bind .receiverOf fun receiver => .bind .argument fun argument => ?_)
  exact .succeedWith

theorem arrayOperands_looks {count : Nat} : Looks (arrayOperands count) := by
  have elements (arrayClass array : Value) : Looks (do
      if array.isSmall then return none
      if (← classOf array) ≠ arrayClass then return none
      return some ((← Run.object array).pointers?.getD #[]).toList) :=
    .ite .pure (Looks.classOf.bind fun _ => .ite .pure (Looks.readHeap.bind fun _ => .pure))
  refine Looks.receiverOf.bind fun receiver => Looks.argument.bind fun argument => ?_
  refine Looks.getRegisters.bind fun registers => (elements _ receiver).bind fun sources => ?_
  cases sources with
  | none => exact .pure
  | some sources =>
    refine (elements _ argument).bind fun targets => ?_
    cases targets with
    | none => exact .pure
    | some targets => exact .pure

theorem become_clean (twoWay : Bool) (count : Nat) : Clean (become twoWay count) := by
  refine .ite .pure (.bind arrayOperands_looks fun operands => ?_)
  rcases operands with - | ⟨sources, targets⟩
  · exact .pure
  · refine .bind .get fun machine => ?_
    cases Rooted.become ⟨machine.heap, machine.registers⟩ sources targets twoWay with
    | error reason => exact .pure
    | ok after => exact (Answers.bind fun _ => .bind fun _ => .pure).clean

theorem slotsLeft_answers (count : Nat) : Answers (slotsLeft count) := .bind fun _ => .succeed

theorem signalAt_clean (count : Nat) : Clean (signalAt count) := by
  refine .ite .pure (.bind .argument fun semaphore => .bind .argument fun time => ?_)
  cases time.int? with
  | none => exact .pure
  | some tick =>
    refine .ite .pure (.bind .getRegisters fun registers => ?_)
    exact (Answers.bind fun _ => .bind fun _ => .bind fun _ => .pure).clean

/-! ## The devices -/

theorem beCursor_clean (count : Nat) : Clean (beCursor count) := by
  refine .ite .pure (.bind .getHeap fun heap => .bind .receiverOf fun receiver => ?_)
  cases bitmap? heap receiver with
  | none => exact .pure
  | some shape =>
    refine .ite (Answers.bind fun _ => .bind fun _ => .pure).clean ?_
    refine .bind .getHeap fun heap => .bind .argument fun argument => ?_
    cases bitmap? heap argument with
    | none => exact .pure
    | some mask => exact (Answers.bind fun _ => .bind fun _ => .pure).clean

theorem beDisplay_clean (count : Nat) : Clean (beDisplay count) := by
  refine .bind .receiverOf fun form => .bind .getHeap fun heap => ?_
  cases bitmap? heap form with
  | none => exact .pure
  | some bitmap =>
    exact (Answers.bind fun _ => .bind fun _ => .bind fun _ => .bind fun _ => .pure).clean

theorem forceDisplay_clean (count : Nat) : Clean (forceDisplay count) := by
  refine (Answers.bind fun form => .bind fun heap => ?_).clean
  cases bitmap? heap form with
  | none => exact .bind fun _ => .pure
  | some bitmap => exact .bind fun _ => .bind fun _ => .pure

theorem mousePoint_clean (count : Nat) : Clean (mousePoint count) := by
  refine .bind .get fun machine => ?_
  dsimp only
  split
  · exact .succeedWith
  · exact .pure

theorem setMousePoint_clean (count : Nat) : Clean (setMousePoint count) := by
  refine .ite .pure (.bind .getHeap fun heap => .bind .argument fun point => ?_)
  cases coordinates? heap point with
  | none => exact .pure
  | some position =>
    rcases position with ⟨x, y⟩
    exact (Answers.bind fun _ => .bind fun _ => .pure).clean

end Reply

namespace Primitive

open Run Reply

/-- No primitive that fails has done more than look up methods. -/
theorem run_clean (send : Sender) (primitive : Primitive) (count : Nat) :
    Clean (primitive.run send count) := by
  cases primitive with
  | integer operation => exact integerOperation_clean operation count
  | compareIntegers comparison => exact integerComparison_clean comparison count
  | makePoint => exact pointOf_clean count
  | asFloat => exact asFloat_clean count
  | float operation =>
    cases operation with
    | divide => exact floatDivision_clean count
    | add => exact floatOperation_clean .add count
    | subtract => exact floatOperation_clean .subtract count
    | multiply => exact floatOperation_clean .multiply count
  | compareFloats comparison => exact floatComparison_clean comparison count
  | truncated => exact truncated_clean count
  | elementAt chars => exact elementAt_clean chars count
  | setElementAt chars => exact setElementAt_clean chars count
  | size => exact sizeOf_clean count
  | literalAt => exact literalAt_clean count
  | literalAtPut => exact setLiteralAt_clean count
  | basicNew => exact basicNew_clean count
  | basicNewWithSize => exact basicNewWithSize_clean count
  | instanceVariableAt => exact instanceVariableAt_clean count
  | instanceVariableAtPut => exact setInstanceVariableAt_clean count
  | identityHash => exact identityHash_clean count
  | someInstance => exact someInstance_clean count
  | nextInstance => exact nextInstance_clean count
  | newMethod => exact newMethod_clean count
  | blockCopy => exact blockCopy_clean count
  | blockValue => exact blockValue_clean count
  | perform => exact perform_clean send count
  | performWithArguments => exact performWithArguments_clean send count
  | performInSuperclass => exact performInSuperclass_clean send count
  | signal => exact signalSemaphore_clean count
  | wait => exact waitSemaphore_clean count
  | resume => exact resumeProcess_clean count
  | suspend => exact suspendProcess_clean count
  | yieldActive => exact yieldActive_clean
  | relinquish => exact relinquish_clean count
  | flushCaches => exact (Answers.bind fun _ => .pure).clean
  | flushMethod => exact (Answers.bind fun _ => .bind fun _ => .pure).clean
  | flushSelector => exact (Answers.bind fun _ => .bind fun _ => .pure).clean
  | mousePoint => exact mousePoint_clean count
  | setMousePoint => exact setMousePoint_clean count
  | mouseButtons => exact (Answers.bind fun _ => .succeed).clean
  | nextKey => exact (Answers.bind fun _ => .bind fun _ => .succeed).clean
  | peekKey => exact (Answers.bind fun _ => .bind fun _ => .succeed).clean
  | beCursor => exact beCursor_clean count
  | beDisplay => exact beDisplay_clean count
  | forceDisplay => exact forceDisplay_clean count
  | screenSize => exact (Answers.bind fun _ => .bind fun _ => .succeed).clean
  | replaceFromTo => exact replaceFromTo_clean count
  | identical => exact identical_clean count
  | species => exact (Answers.bind fun _ => .bind fun _ => .succeed).clean
  | slotsLeft => exact (slotsLeft_answers count).clean
  | quit => exact (Answers.bind fun _ => .pure).clean
  | become twoWay => exact become_clean twoWay count
  | specialObjectsArray => exact (Answers.bind fun _ => .succeed).clean
  | fullCollection => exact (Answers.bind fun _ => slotsLeft_answers count).clean
  | partialCollection => exact (Answers.bind fun _ => slotsLeft_answers count).clean
  | millisecondClock => exact (Answers.bind fun _ => .succeed).clean
  | signalAt => exact signalAt_clean count
  | secondsClock => exact (Answers.bind fun _ => .bind fun _ => .succeed).clean
  | someObject => exact someObject_clean count
  | nextObject => exact nextObject_clean count
  | copy => exact copy_clean count

end Primitive

namespace Run

theorem quickResult_looks {number : Nat} {receiver : Value} :
    Looks (quickResult number receiver) := by
  refine Looks.getRegisters.bind fun registers => ?_
  dsimp only
  split
  all_goals first | exact .pure | exact Looks.getHeap.bind fun heap => .pure

theorem quickPrimitive_clean (number : Nat) : Clean (quickPrimitive number) := by
  refine .bind .getRegisters fun registers => .bind .operand fun receiver => ?_
  refine .bind quickResult_looks fun result => ?_
  cases result with
  | none => exact .pure
  | some result => exact .succeed

/-- A primitive that is not there fails like any other one. -/
theorem respond_clean (send : Reply.Sender) (number : Nat) : Clean (respond send number) := by
  refine .ite (quickPrimitive_clean number) ?_
  cases Primitive.ofNumber? number with
  | none => exact .pure
  | some primitive =>
    intro machine
    refine (ensures_getRegisters machine).bindExactly ?_
    refine (primitive.run_clean send _ machine).bind fun answered after clean => ?_
    cases answered with
    | true => exact .pure fun absurd => by cases absurd
    | false =>
      rcases clean rfl with ⟨cache, rfl⟩
      refine (ensures_modifyRegisters _ _).bindChange fun _ => ?_
      exact .pure fun _ => ⟨cache, rfl⟩

/-- A message whose primitive fails goes on to its method. -/
theorem sendToClassBy_of_failed {resolve : Resolver} {depth count : Nat}
    {selector species : Value} {machine found after : Machine}
    (resolved : findMethodBy resolve species (machine.sending selector count species)
      = .ok () found)
    (numbered : 0 < found.registers.primitiveIndex)
    (failed : respond (sendToClassBy resolve depth) found.registers.primitiveIndex found
      = .ok false after) :
    sendToClassBy resolve (depth + 1) selector count species machine = activateMethod after := by
  have start : (modifyRegisters fun registers => { registers with
      messageSelector := selector, argumentCount := count, lookupClass := species }) machine
        = .ok () (machine.sending selector count species) := rfl
  rw [sendToClassBy]
  refine (bind_ok start).trans ((bind_ok resolved).trans ?_)
  refine (bind_ok getRegisters_apply).trans ?_
  simp only [if_pos numbered]
  exact (bind_ok failed).trans rfl

/-- When a primitive fails, whether it is a numbered one, a quick one or none at all, the
machine is the one that the primitive was asked in, apart from what the method cache
remembers and counts. The method of the message is then activated in that machine. -/
theorem respond_fails_cleanly :
    (∀ (send : Reply.Sender) (number : Nat) (machine after : Machine),
      respond send number machine = .ok false after → CacheApart machine after) ∧
      ∀ (resolve : Resolver) (depth count : Nat) (selector species : Value)
        (machine found after : Machine),
        findMethodBy resolve species (machine.sending selector count species) = .ok () found →
        0 < found.registers.primitiveIndex →
        respond (sendToClassBy resolve depth) found.registers.primitiveIndex found
          = .ok false after →
        CacheApart found after ∧
          sendToClassBy resolve (depth + 1) selector count species machine
            = activateMethod after := by
  have clean (send : Reply.Sender) (number : Nat) (machine after : Machine)
      (failed : respond send number machine = .ok false after) : CacheApart machine after :=
    respond_clean send number machine false after failed rfl
  refine ⟨clean, ?_⟩
  intro resolve depth count selector species machine found after resolved numbered failed
  exact ⟨clean _ _ found after failed, sendToClassBy_of_failed resolved numbered failed⟩

/-- A machine whose message asks its receiver to perform a selector with one argument, which
names a method that takes none. -/
def performingMachine : Machine :=
  let nil : Value := .object 0
  let machine := Machine.sampleMachine
    [Machine.sampleNode .zero #[], Machine.sampleNode .zero #[nil, .object 2, .zero],
      Machine.sampleNode .zero #[.zero, .object 3, .object 4, .object 9],
      Machine.sampleNode .zero #[.object 5, .object 10], Machine.sampleNode .zero #[],
      Machine.sampleMethod 0 [] #[120], Machine.sampleMethod 0 [.object 9] #[240],
      Machine.sampleNode .zero
        #[nil, nil, nil, .object 6, nil, .object 8, .object 8, .object 4, nil],
      Machine.sampleNode (.object 1) #[], Machine.sampleNode .zero #[],
      Machine.sampleMethod 83 [] #[120]]
    12 nil
  { machine with registers.sp := 8 }

/-- The method of the performed selector is looked up and remembered; then the primitive
fails and the method with the primitive is activated. -/
theorem respond_fails_performingMachine :
    let sent := performingMachine.sending (.object 9) 2 (.object 1)
    let found := (findMethodBy resolveMessage (.object 1)).left sent
    let after := (respond (sendToClass 1) 83).left found
    respond (sendToClass 1) 83 found = .ok false after ∧
      found.registers.methodCache ≠ after.registers.methodCache ∧ CacheApart found after ∧
      sendToClass 2 (.object 9) 2 (.object 1) performingMachine = activateMethod after := by
  intro sent found after
  have resolved : findMethodBy resolveMessage (.object 1) sent = .ok () found :=
    ended?_eq_some.mp (by decide +kernel)
  have numbered : found.registers.primitiveIndex = 83 := by decide +kernel
  have failed : respond (sendToClass 1) 83 found = .ok false after :=
    ended?_eq_some.mp (by decide +kernel)
  have goesOn := respond_fails_cleanly.2 resolveMessage 1 2 (.object 9) (.object 1)
    performingMachine found after resolved (by omega) (numbered.symm ▸ failed)
  exact ⟨failed, by decide +kernel, respond_fails_cleanly.1 _ _ _ _ failed, goesOn.2⟩

end Run

end Smalltalk

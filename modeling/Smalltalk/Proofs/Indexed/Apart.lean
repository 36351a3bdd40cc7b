import Smalltalk.Machine.Step
import Smalltalk.Proofs.Heap.Pressure
import Smalltalk.Proofs.Machine.Evaluation

namespace Smalltalk

/-! Two machines are alike when they differ at most in the message being sent and in what
their caches remember. A computation that reads neither comes to the same in both. -/

namespace Machine

/-- The machine without the message being sent and with empty caches. -/
def withoutSend (machine : Machine) : Machine :=
  { machine with registers := { machine.registers with
      newMethod := .zero
      messageSelector := .zero
      lookupClass := .zero
      argumentCount := 0
      primitiveIndex := 0
      methodCache := .ofSize 0 0
      atCache := .ofSize 0 } }

/-- Whether machines differ at most in the message being sent and in their caches. -/
def Alike (first second : Machine) : Prop := first.withoutSend = second.withoutSend

namespace Alike

variable {first middle second : Machine}

theorem refl (machine : Machine) : machine.Alike machine := rfl

theorem symm (alike : first.Alike second) : second.Alike first := Eq.symm alike

theorem trans (early : first.Alike middle) (late : middle.Alike second) : first.Alike second :=
  Eq.trans early late

theorem heap (alike : first.Alike second) : first.heap = second.heap :=
  congrArg (fun machine => machine.heap) alike

theorem specials (alike : first.Alike second) :
    first.registers.specials = second.registers.specials :=
  congrArg (fun machine => machine.registers.specials) alike

theorem activeContext (alike : first.Alike second) :
    first.registers.activeContext = second.registers.activeContext :=
  congrArg (fun machine => machine.registers.activeContext) alike

theorem sp (alike : first.Alike second) : first.registers.sp = second.registers.sp :=
  congrArg (fun machine => machine.registers.sp) alike

theorem withHeap (alike : first.Alike second) (heap : Heap) :
    (first.withHeap heap).Alike (second.withHeap heap) := by
  have apart (machine : Machine) :
      (machine.withHeap heap).withoutSend = machine.withoutSend.withHeap heap := rfl
  rw [Alike, apart, apart, show first.withoutSend = second.withoutSend from alike]

end Alike

end Machine

namespace Run

variable {α β : Type}

/-- What a computation comes to, apart from the message being sent and the caches. -/
def outcome (run : Run α) (machine : Machine) : EStateM.Result Stop Machine α :=
  match run machine with
  | .ok result after => .ok result after.withoutSend
  | .error stop after => .error stop after.withoutSend

/-- The computation reads neither the message being sent nor the caches. -/
def Blind (run : Run α) : Prop :=
  ∀ first second : Machine, first.Alike second → run.outcome first = run.outcome second

section

variable {run other : Run α} {next later : α → Run β} {first second after : Machine}

theorem outcome_of_ok {result : α} (ended : run first = .ok result after) :
    run.outcome first = .ok result after.withoutSend := by
  rw [outcome, ended]

theorem outcome_of_error {stop : Stop} (stopped : run first = .error stop after) :
    run.outcome first = .error stop after.withoutSend := by
  rw [outcome, stopped]

theorem outcome_of_eq (same : run first = other second) :
    run.outcome first = other.outcome second := by
  rw [outcome, outcome, same]

theorem outcome_eq_ok {result : α} {bare : Machine} (known : run.outcome first = .ok result bare) :
    ∃ after, run first = .ok result after ∧ after.withoutSend = bare := by
  rw [outcome] at known
  split at known
  · rename_i found after ended
    cases known
    exact ⟨after, ended, rfl⟩
  · cases known

theorem outcome_eq_error {stop : Stop} {bare : Machine}
    (known : run.outcome first = .error stop bare) :
    ∃ after, run first = .error stop after ∧ after.withoutSend = bare := by
  rw [outcome] at known
  split at known
  · cases known
  · rename_i found after stopped
    cases known
    exact ⟨after, stopped, rfl⟩

/-- Computations that come to the same, followed by such computations. -/
theorem outcome_bind (same : run.outcome first = other.outcome second)
    (rest : ∀ result before after, run first = .ok result before →
      other second = .ok result after → before.Alike after →
        (next result).outcome before = (later result).outcome after) :
    (run >>= next).outcome first = (other >>= later).outcome second := by
  cases ended : run first with
  | ok result before =>
    rcases outcome_eq_ok (same.symm.trans (outcome_of_ok ended)) with ⟨after, again, alike⟩
    rw [outcome_of_eq (bind_ok ended), outcome_of_eq (bind_ok again)]
    exact rest result before after ended again (Eq.symm alike)
  | error stop before =>
    rcases outcome_eq_error (same.symm.trans (outcome_of_error ended)) with
      ⟨after, again, alike⟩
    rw [outcome_of_error (bind_error ended), outcome_of_error (bind_error again), alike]

end

namespace Blind

variable {run : Run α} {next : α → Run β}

/-- What only reads reads the same in a machine that is alike. -/
theorem reads {result : α} {first second : Machine} (blind : Blind run)
    (keeps : ∀ machine, run.Ensures machine fun _ after => after = machine)
    (alike : second.Alike first) (ended : run first = .ok result first) :
    run second = .ok result second := by
  rcases outcome_eq_ok ((blind second first alike).trans (outcome_of_ok ended)) with
    ⟨after, again, -⟩
  cases keeps second result after again
  exact again

theorem pure {result : α} : Blind (Pure.pure result) :=
  fun _ _ alike => congrArg (EStateM.Result.ok result) alike

theorem throw {stop : Stop} : Blind (MonadExcept.throw stop : Run α) :=
  fun _ _ alike => congrArg (EStateM.Result.error stop) alike

theorem bind (blind : Blind run) (rest : ∀ result, Blind (next result)) : Blind (run >>= next) :=
  fun first second alike => outcome_bind (blind first second alike)
    fun result before after _ _ alike => rest result before after alike

theorem ite {condition : Prop} [Decidable condition] {yes no : Run α} (first : Blind yes)
    (second : Blind no) : Blind (if condition then yes else no) := by
  split
  · exact first
  · exact second

/-- The machine is read for something else. -/
theorem bindRead {read : Run α} {value : Machine → α}
    (known : ∀ machine, read machine = .ok (value machine) machine)
    (reads : ∀ first second : Machine, first.Alike second →
      next (value first) = next (value second))
    (rest : ∀ result, Blind (next result)) : Blind (read >>= next) := by
  intro first second alike
  rw [outcome_of_eq (bind_ok (known first)), outcome_of_eq (bind_ok (known second)),
    reads first second alike]
  exact rest _ first second alike

theorem modify {change : Machine → Machine}
    (apart : ∀ machine : Machine,
      (change machine).withoutSend = (change machine.withoutSend).withoutSend) :
    Blind (modify change : Run Unit) := by
  intro first second alike
  have same : (change first).withoutSend = (change second).withoutSend := by
    rw [apart first, apart second, show first.withoutSend = second.withoutSend from alike]
  exact congrArg (EStateM.Result.ok ()) same

theorem readHeap {query : Heap → Except MemoryError α} : Blind (readHeap query) := by
  intro first second alike
  have here := alike.heap
  cases known : query first.heap with
  | ok result =>
    rw [outcome_of_ok (readHeap_ok known), outcome_of_ok (readHeap_ok (here ▸ known))]
    exact congrArg (EStateM.Result.ok result) alike
  | error error =>
    rw [outcome_of_error (readHeap_error known), outcome_of_error (readHeap_error (here ▸ known))]
    exact congrArg (EStateM.Result.error _) alike

theorem fetch {object : Value} {index : Nat} : Blind (Run.fetch object index) := readHeap

theorem object {value : Value} : Blind (Run.object value) := readHeap

theorem modifyHeap {change : Heap → Heap} : Blind (modifyHeap change) := by
  refine fun first second alike => modify ?_ first second alike
  exact fun _ => rfl

theorem drop {count : Nat} : Blind (Run.drop count) := modify fun _ => rfl

theorem store {object : Value} {index : Nat} {value : Value} :
    Blind (Run.store object index value) := by
  intro first second alike
  simp only [outcome, Run.store, alike.heap]
  cases second.heap.store object index value with
  | ok heap => exact congrArg (EStateM.Result.ok ()) (alike.withHeap heap)
  | error error => exact congrArg (EStateM.Result.error _) alike

theorem push {value : Value} : Blind (Run.push value) := by
  refine bind (modify fun _ => rfl) fun _ =>
    bindRead (fun _ => getRegisters_apply) ?_ fun registers => store
  intro first second alike
  rw [alike.activeContext, alike.sp]

theorem replace {count : Nat} {value : Value} : Blind (Run.replace count value) :=
  drop.bind fun _ => push

theorem operand {depth : Nat} : Blind (Run.operand depth) := by
  refine bindRead (fun _ => getRegisters_apply) ?_ fun registers => ite fetch throw
  intro first second alike
  rw [alike.activeContext, alike.sp]

theorem operand_reads {depth : Nat} {value : Value} {first second : Machine}
    (alike : second.Alike first) (ended : Run.operand depth first = .ok value first) :
    Run.operand depth second = .ok value second :=
  operand.reads (fun machine => (ensures_operand machine depth).mono fun _ _ found => found.2)
    alike ended

theorem classOf {value : Value} : Blind (Run.classOf value) := by
  refine ite (bindRead (fun _ => getRegisters_apply) ?_ fun registers => pure)
    (object.bind fun _ => pure)
  intro first second alike
  rw [alike.specials]

end Blind

/-! ## New objects -/

/-- As long as the table has room, a registration only places its object. -/
theorem register_apply (object : HeapObject) {machine : Machine}
    (room : machine.heap.size < machine.heap.capacity) :
    register object machine =
      let heap := machine.heap.advanceHash
      let placed := heap.place { object with hash := heap.currentHash }
      .ok placed.1 { machine with heap := placed.2 } := by
  rcases HeapM.register_steps object ⟨machine.heap, machine.registers⟩ with
    ⟨-, same⟩ | ⟨full, -⟩
  · rw [register, onHeap, same, HeapM.placeFresh_apply]
  · exact absurd room (Nat.not_lt.mpr full)

theorem register_outcome (object : HeapObject) {first second : Machine}
    (alike : first.Alike second) (room : first.heap.size < first.heap.capacity) :
    (register object).outcome first = (register object).outcome second := by
  have again : second.heap.size < second.heap.capacity := alike.heap ▸ room
  rw [outcome_of_ok (register_apply object room), outcome_of_ok (register_apply object again)]
  rw [← alike.heap]
  exact congrArg (EStateM.Result.ok _) (alike.withHeap _)

end Run

namespace Reply

open Run

/-! ## Elements -/

theorem byteAt_blind {object : Value} {slot : Nat} : Blind (byteAt object slot) := by
  refine Blind.object.bind fun owner => ?_
  cases owner.bytes? with
  | none => exact .pure
  | some bytes =>
    dsimp only
    cases bytes[slot]? with
    | none => exact .throw
    | some byte => exact .pure

theorem wordAt_blind {object : Value} {slot : Nat} : Blind (wordAt object slot) := by
  refine Blind.object.bind fun owner => ?_
  cases owner.words? with
  | none => exact .pure
  | some words =>
    dsimp only
    cases words[slot]? with
    | none => exact .throw
    | some word => exact .pure

theorem wordAt_ensures (machine : Machine) (object : Value) (slot : Nat) :
    (wordAt object slot).Ensures machine fun word after =>
      (∀ words, (machine.heap.get? object).bind HeapObject.words? = some words →
        words[slot]? = some word) ∧ after = machine := by
  refine (ensures_readHeap machine _).bindTo fun owner found => ?_
  rw [Heap.object_eq_ok_iff.mp found, Option.bind_some]
  cases owner.words? with
  | none => exact .pure ⟨by simp, rfl⟩
  | some words =>
    dsimp only
    cases inside : words[slot]? with
    | none => exact .throw
    | some word =>
      refine .pure ⟨fun _ same => ?_, rfl⟩
      cases same
      exact inside

/-- The number that is made for a word that is no small integer. -/
def wordNumber (specials : Specials) (word : UInt32) : HeapObject :=
  { species := specials.largePositiveIntegerClass
    format := Format.bytes
    body := .bytes (littleEndian word) }

theorem wordObject_boxes {word : UInt32} (large : Value.ofInt? word.toNat = none)
    (machine : Machine) :
    wordObject word machine = register (wordNumber machine.registers.specials word) machine := by
  rw [wordObject, large]
  exact bind_ok getRegisters_apply

/-- Reading an element comes to the same in machines that are alike, except that a new
number may find the table full. -/
theorem readElement_outcome {part : IndexedPart} {place : Nat} {first second : Machine}
    (alike : first.Alike second)
    (room : ∀ word, part.kind = .words →
      wordAt part.object (part.fixed + place) first = .ok word first →
        Value.ofInt? word.toNat = none → first.heap.size < first.heap.capacity) :
    (readElement part place).outcome first = (readElement part place).outcome second := by
  rcases part with ⟨object, kind, fixed, size⟩
  cases kind with
  | pointers => exact Blind.fetch first second alike
  | words =>
    refine outcome_bind (wordAt_blind first second alike) fun word before after ended _ same => ?_
    rcases wordAt_ensures first object (fixed + place) word before ended with ⟨-, rfl⟩
    cases small : Value.ofInt? word.toNat with
    | some value =>
      rw [wordObject, small]
      exact Blind.pure before after same
    | none =>
      rw [outcome_of_eq (wordObject_boxes small before),
        outcome_of_eq (wordObject_boxes small after), ← same.specials]
      exact register_outcome _ same (room word rfl ended small)
  | bytes =>
    exact byteAt_blind.bind (fun _ => Blind.pure) first second alike
  | chars =>
    refine Blind.bindRead (fun _ => getRegisters_apply) ?_
      (fun registers => byteAt_blind.bind fun _ => Blind.fetch) first second alike
    intro first second alike
    rw [alike.specials]

theorem setByte_blind {object : Value} {slot : Nat} {byte : UInt8} :
    Blind (setByte object slot byte) := by
  refine Blind.object.bind fun owner => ?_
  cases owner.bytes? with
  | none => exact .modifyHeap
  | some bytes => exact .ite (Blind.throw.bind fun _ => .modifyHeap) .modifyHeap

theorem setWord_blind {object : Value} {slot : Nat} {word : UInt32} :
    Blind (setWord object slot word) := by
  refine Blind.object.bind fun owner => ?_
  cases owner.words? with
  | none => exact .modifyHeap
  | some words => exact .ite (Blind.throw.bind fun _ => .modifyHeap) .modifyHeap

theorem wordOf_blind {value : Value} : Blind (wordOf value) := by
  cases value with
  | small n => exact .pure
  | object slot =>
    refine .bindRead (fun _ => get_apply) ?_ fun machine => ?_
    · intro first second alike
      rw [alike.heap, alike.specials]
    · cases machine.heap.get? (.object slot) with
      | none => exact .pure
      | some object => exact .ite .pure .pure

theorem characterCode_blind {value : Value} : Blind (characterCode value) := by
  refine .ite .pure (Blind.classOf.bind fun species => .bindRead (fun _ => getRegisters_apply) ?_
    fun registers => .ite .pure (Blind.fetch.bind fun _ => .pure))
  intro first second alike
  rw [alike.specials]

theorem writeElement_blind {part : IndexedPart} {place : Nat} {value : Value} :
    Blind (writeElement part place value) := by
  have writeByte (code : Int) : Blind (do
      if code < 0 ∨ 255 < code then return false
      setByte part.object (part.fixed + place) (UInt8.ofNat code.toNat)
      return true : Run Bool) := .ite .pure (setByte_blind.bind fun _ => .pure)
  unfold writeElement
  cases part.kind with
  | pointers => exact Blind.store.bind fun _ => .pure
  | words =>
    refine wordOf_blind.bind fun word => ?_
    cases word with
    | none => exact .pure
    | some word => exact setWord_blind.bind fun _ => .pure
  | bytes =>
    dsimp only
    cases value.int? with
    | none => exact .pure
    | some code => exact writeByte code
  | chars =>
    refine characterCode_blind.bind fun code => ?_
    cases code with
    | none => exact .pure
    | some code => exact writeByte code

end Reply

end Smalltalk

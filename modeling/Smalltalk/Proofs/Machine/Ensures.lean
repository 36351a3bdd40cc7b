import Smalltalk.Machine.Stack
import Smalltalk.Proofs.Heap.Access

namespace Smalltalk

/-! What a computation on a machine guarantees when it comes to its end. Nothing
is said about computations that stop. -/

namespace Run

variable {α β : Type}

/-- If the computation comes to its end, its result and the machine it leaves
have a property. -/
def Ensures (run : Run α) (machine : Machine) (post : α → Machine → Prop) : Prop :=
  ∀ result after, run machine = .ok result after → post result after

namespace Ensures

variable {run : Run α} {next : α → Run β} {machine : Machine} {post middle : α → Machine → Prop}
  {final : β → Machine → Prop}

theorem mono (ensures : run.Ensures machine middle)
    (weaker : ∀ result after, middle result after → post result after) :
    run.Ensures machine post :=
  fun result after ended => weaker result after (ensures result after ended)

theorem and {other : α → Machine → Prop} (first : run.Ensures machine post)
    (second : run.Ensures machine other) :
    run.Ensures machine fun result after => post result after ∧ other result after :=
  fun result after ended => ⟨first result after ended, second result after ended⟩

theorem pure {result : α} (holds : post result machine) :
    (Pure.pure result : Run α).Ensures machine post := by
  intro _ _ ended
  cases ended
  exact holds

theorem bind (first : run.Ensures machine middle)
    (second : ∀ result after, middle result after → (next result).Ensures after final) :
    (run >>= next).Ensures machine final := by
  intro result after ended
  simp only [Bind.bind, EStateM.bind] at ended
  split at ended
  · rename_i between state found
    exact second between state (first between state found) result after ended
  · cases ended

/-- The machine that the first computation leaves is known. -/
theorem bindTo {good : α → Prop} {between : Machine}
    (first : run.Ensures machine fun result after => good result ∧ after = between)
    (second : ∀ result, good result → (next result).Ensures between final) :
    (run >>= next).Ensures machine final :=
  first.bind fun result _ ended => ended.2 ▸ second result ended.1

/-- Its result is known as well. -/
theorem bindExactly {value : α} {between : Machine}
    (first : run.Ensures machine fun result after => result = value ∧ after = between)
    (second : (next value).Ensures between final) : (run >>= next).Ensures machine final :=
  first.bindTo fun _ same => same ▸ second

theorem bindChange {between : Machine}
    (first : run.Ensures machine fun _ after => after = between)
    (second : ∀ result, (next result).Ensures between final) :
    (run >>= next).Ensures machine final :=
  first.bind fun result _ same => same ▸ second result

theorem discard {post : Unit → Machine → Prop} (ensures : run.Ensures machine fun _ => post ()) :
    (Functor.discard run).Ensures machine post := by
  intro result after ended
  simp only [Functor.discard, Functor.mapConst, Function.comp, EStateM.map] at ended
  cases ran : run machine with
  | ok found state =>
    rw [ran] at ended
    cases ended
    exact ensures found _ ran
  | error stop state =>
    rw [ran] at ended
    cases ended

theorem throw {stop : Stop} : (MonadExcept.throw stop : Run α).Ensures machine post := by
  intro _ _ ended
  cases ended

theorem fail {reason : MachineError} : (Run.fail reason : Run α).Ensures machine post :=
  throw

end Ensures

/-- The result of a computation that comes to its end and the machine that it leaves. -/
def ended? (run : Run α) (machine : Machine) : Option (α × Machine) :=
  match run machine with
  | .ok result after => some (result, after)
  | .error _ _ => none

theorem ended?_eq_some {run : Run α} {machine after : Machine} {result : α} :
    run.ended? machine = some (result, after) ↔ run machine = .ok result after := by
  rw [ended?]
  cases run machine <;> simp

/-- If the computation starts with an invariant and comes to its end, the invariant
holds again and the result has a property. -/
def Maintains (invariant : Machine → Prop) (run : Run α) (good : α → Prop) : Prop :=
  ∀ machine, invariant machine →
    run.Ensures machine fun result after => invariant after ∧ good result

namespace Maintains

variable {invariant : Machine → Prop} {run : Run α} {next : α → Run β}
  {good middle : α → Prop} {final : β → Prop}

theorem pure {result : α} (found : good result) : Maintains invariant (Pure.pure result) good :=
  fun _ holds => .pure ⟨holds, found⟩

theorem bind (first : Maintains invariant run middle)
    (second : ∀ result, middle result → Maintains invariant (next result) final) :
    Maintains invariant (run >>= next) final :=
  fun machine holds => (first machine holds).bind
    fun result after ended => second result ended.2 after ended.1

theorem discard (maintains : Maintains invariant run good) :
    Maintains invariant (Functor.discard run) fun _ => True :=
  fun machine holds => .discard <| (maintains machine holds).mono
    fun _ _ ended => ⟨ended.1, trivial⟩

theorem throw {stop : Stop} : Maintains invariant (MonadExcept.throw stop : Run α) good :=
  fun _ _ => .throw

theorem fail {reason : MachineError} : Maintains invariant (Run.fail reason : Run α) good := throw

theorem throwThen {stop : Stop} {next : β → Run α} :
    Maintains invariant ((MonadExcept.throw stop : Run β) >>= next) good := by
  have never : Maintains invariant (MonadExcept.throw stop : Run β) fun _ => False := throw
  exact never.bind fun _ absurd => absurd.elim

theorem failThen {reason : MachineError} {next : β → Run α} :
    Maintains invariant (Run.fail reason >>= next) good := throwThen

theorem ite {condition : Prop} [Decidable condition] {first second : Run α}
    (yes : condition → Maintains invariant first good)
    (no : ¬ condition → Maintains invariant second good) :
    Maintains invariant (if condition then first else second) good := by
  split
  · exact yes ‹_›
  · exact no ‹_›

end Maintains

/-! ## The machine itself -/

variable (machine : Machine)

theorem ensures_get : (get : Run Machine).Ensures machine fun result after =>
    result = machine ∧ after = machine := by
  intro _ _ ended
  cases ended
  exact ⟨rfl, rfl⟩

theorem ensures_set (next : Machine) : (set next : Run Unit).Ensures machine fun _ after =>
    after = next := by
  intro _ _ ended
  cases ended
  rfl

theorem ensures_modify (change : Machine → Machine) :
    (modify change : Run Unit).Ensures machine fun _ after => after = change machine := by
  intro _ _ ended
  cases ended
  rfl

theorem ensures_modifyGet (change : Machine → α × Machine) :
    (modifyGet change : Run α).Ensures machine fun result after =>
      (result, after) = change machine := by
  intro _ _ ended
  cases ended
  rfl

theorem ensures_getRegisters : getRegisters.Ensures machine fun result after =>
    result = machine.registers ∧ after = machine := by
  intro _ _ ended
  cases ended
  exact ⟨rfl, rfl⟩

theorem ensures_getHeap : getHeap.Ensures machine fun result after =>
    result = machine.heap ∧ after = machine := by
  intro _ _ ended
  cases ended
  exact ⟨rfl, rfl⟩

theorem ensures_getNil : getNil.Ensures machine fun result after =>
    result = machine.registers.specials.nil ∧ after = machine := by
  intro _ _ ended
  cases ended
  exact ⟨rfl, rfl⟩

theorem ensures_modifyRegisters (change : Registers → Registers) :
    (modifyRegisters change).Ensures machine fun _ after =>
      after = { machine with registers := change machine.registers } :=
  ensures_modify machine _

theorem ensures_modifyHeap (change : Heap → Heap) :
    (modifyHeap change).Ensures machine fun _ after =>
      after = { machine with heap := change machine.heap } :=
  ensures_modify machine _

/-! ## The heap -/

theorem ensures_readHeap (query : Heap → Except MemoryError α) :
    (readHeap query).Ensures machine fun result after =>
      query machine.heap = .ok result ∧ after = machine := by
  intro result after ended
  simp only [readHeap] at ended
  split at ended
  · cases ended
    exact ⟨‹_›, rfl⟩
  · cases ended

theorem ensures_fetch (object : Value) (index : Nat) :
    (fetch object index).Ensures machine fun result after =>
      machine.heap.fetch object index = .ok result ∧ after = machine :=
  ensures_readHeap machine _

variable {machine} in
theorem fetch_ensures {object value : Value} {index : Nat}
    (known : machine.heap.fetch object index = .ok value) :
    (fetch object index).Ensures machine fun result after => result = value ∧ after = machine := by
  refine (ensures_fetch machine object index).mono ?_
  intro result after ended
  rcases ended with ⟨found, same⟩
  exact ⟨Except.ok.inj (found.symm.trans known), same⟩

theorem ensures_fetchInt (object : Value) (index : Nat) :
    (fetchInt object index).Ensures machine fun result after =>
      machine.heap.fetchInt object index = .ok result ∧ after = machine :=
  ensures_readHeap machine _

theorem ensures_specialObject (index : Nat) :
    (specialObject index).Ensures machine fun result after =>
      machine.heap.fetch machine.registers.specials.array index = .ok result ∧
        after = machine := by
  refine (ensures_getRegisters machine).bindExactly ?_
  exact ensures_fetch machine _ index

theorem methodHeader_ensures (method : Value) :
    (methodHeader method).Ensures machine fun _ after => after = machine := by
  refine (ensures_readHeap machine _).bindTo fun header _ => ?_
  cases header with
  | none => exact .fail
  | some header => exact .pure rfl

/-- What has been stored can be fetched. -/
theorem ensures_store (object : Value) (index : Nat) (value : Value) :
    (store object index value).Ensures machine fun _ after =>
      (machine.heap.setField object index value).fetch object index = .ok value ∧
        after = { machine with heap := machine.heap.setField object index value } := by
  intro result after ended
  simp only [store] at ended
  split at ended
  · rename_i heap stored
    rcases Heap.store_eq_ok_iff.mp stored with ⟨⟨fields, readable, inside⟩, rfl⟩
    cases ended
    exact ⟨Heap.fetch_setField_same readable inside value, rfl⟩
  · cases ended

theorem ensures_onHeap (run : HeapM Registers α) :
    (onHeap run).Ensures machine fun result after =>
      ∃ rooted, run ⟨machine.heap, machine.registers⟩ = .ok result rooted ∧
        after = { machine with heap := rooted.heap, registers := rooted.roots } := by
  intro result after ended
  simp only [onHeap] at ended
  split at ended
  · rename_i found rooted ran
    cases ended
    exact ⟨rooted, ran, rfl⟩
  · cases ended

/-! ## Invariants

What reads the machine maintains everything. -/

section

omit machine

variable {invariant : Machine → Prop}

theorem maintains_readHeap {query : Heap → Except MemoryError α} :
    Maintains invariant (readHeap query) fun _ => True :=
  fun machine holds => (ensures_readHeap machine query).mono <| by
    intro _ _ ended
    rcases ended with ⟨-, rfl⟩
    exact ⟨holds, trivial⟩

theorem maintains_getRegisters : Maintains invariant getRegisters fun _ => True :=
  fun machine holds => (ensures_getRegisters machine).mono <| by
    intro _ _ ended
    rcases ended with ⟨-, rfl⟩
    exact ⟨holds, trivial⟩

theorem maintains_getHeap : Maintains invariant getHeap fun _ => True :=
  fun machine holds => (ensures_getHeap machine).mono <| by
    intro _ _ ended
    rcases ended with ⟨-, rfl⟩
    exact ⟨holds, trivial⟩

theorem maintains_getNil : Maintains invariant getNil fun _ => True :=
  maintains_getRegisters.bind fun _ _ => .pure trivial

theorem maintains_methodHeader {method : Value} :
    Maintains invariant (methodHeader method) fun _ => True :=
  fun machine holds => (methodHeader_ensures machine method).mono <| by
    intro _ _ same
    rcases same with rfl
    exact ⟨holds, trivial⟩

theorem maintains_modify {change : Machine → Machine}
    (kept : ∀ machine, invariant machine → invariant (change machine)) :
    Maintains invariant (modify change : Run Unit) fun _ => True :=
  fun machine holds => (ensures_modify machine change).mono <| by
    intro _ _ same
    rcases same with rfl
    exact ⟨kept machine holds, trivial⟩

theorem maintains_get : Maintains invariant (get : Run Machine) fun _ => True :=
  fun machine holds => (ensures_get machine).mono <| by
    intro _ _ ended
    rcases ended with ⟨-, rfl⟩
    exact ⟨holds, trivial⟩

theorem maintains_modifyGet {change : Machine → α × Machine}
    (kept : ∀ machine, invariant machine → invariant (change machine).2) :
    Maintains invariant (modifyGet change : Run α) fun _ => True :=
  fun machine holds => (ensures_modifyGet machine change).mono fun _ after ended => by
    have same : after = (change machine).2 := congrArg Prod.snd ended
    exact ⟨same ▸ kept machine holds, trivial⟩

theorem maintains_modifyRegisters {change : Registers → Registers}
    (kept : ∀ machine, invariant machine →
      invariant { machine with registers := change machine.registers }) :
    Maintains invariant (modifyRegisters change) fun _ => True :=
  maintains_modify kept

end

/-! ## The stack -/

theorem ensures_operand (depth : Nat) :
    (operand depth).Ensures machine fun result after =>
      machine.heap.fetch machine.registers.activeContext (machine.registers.sp - depth)
        = .ok result ∧ after = machine := by
  refine (ensures_getRegisters machine).bindExactly ?_
  split
  · exact ensures_fetch _ _ _
  · exact .fail

theorem ensures_drop (count : Nat) :
    (drop count).Ensures machine fun _ after =>
      after = { machine with registers.sp := machine.registers.sp - count } :=
  ensures_modifyRegisters machine _

theorem ensures_push (value : Value) :
    (push value).Ensures machine fun _ after =>
      after.heap.fetch after.registers.activeContext after.registers.sp = .ok value ∧
      after = { machine with
        heap := machine.heap.setField machine.registers.activeContext
          (machine.registers.sp + 1) value
        registers.sp := machine.registers.sp + 1 } := by
  refine (ensures_modifyRegisters machine _).bindChange fun _ => ?_
  refine (ensures_getRegisters _).bindExactly ?_
  refine (ensures_store _ _ _ value).mono ?_
  intro _ _ ended
  rcases ended with ⟨stored, rfl⟩
  exact ⟨stored, rfl⟩

theorem ensures_replace (count : Nat) (value : Value) :
    (replace count value).Ensures machine fun _ after =>
      after.heap.fetch after.registers.activeContext after.registers.sp = .ok value ∧
        after = { machine with
          heap := machine.heap.setField machine.registers.activeContext
            (machine.registers.sp - count + 1) value
          registers.sp := machine.registers.sp - count + 1 } := by
  refine (ensures_drop machine count).bindChange fun _ => ?_
  exact ensures_push _ value

end Run

end Smalltalk

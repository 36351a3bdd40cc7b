import Smalltalk.Proofs.Heap.Calls
import Smalltalk.Proofs.Machine.Delegates
import Smalltalk.Proofs.Primitive.Failure

namespace Smalltalk

/-! Three primitives perform messages, and what they pass on they have found on the stack:
either the arguments without the first one, which is the selector, or the elements of an
array among the arguments. -/

namespace Machine

variable {before middle after : Machine}

/-- The objects, the active context and the special objects are the same. -/
structure Untouched (before after : Machine) : Prop where
  heap : after.heap = before.heap
  context : after.registers.activeContext = before.registers.activeContext
  specials : after.registers.specials = before.registers.specials

theorem Untouched.refl (machine : Machine) : machine.Untouched machine := ⟨rfl, rfl, rfl⟩

theorem Untouched.trans {before middle after : Machine} (early : before.Untouched middle)
    (late : middle.Untouched after) : before.Untouched after where
  heap := late.heap.trans early.heap
  context := late.context.trans early.context
  specials := late.specials.trans early.specials

/-- The value that lies `depth` below the top of the stack. -/
def Operand (machine : Machine) (depth : Nat) (value : Value) : Prop :=
  depth ≤ machine.registers.sp ∧
    machine.heap.fetch machine.registers.activeContext (machine.registers.sp - depth) = .ok value

theorem Untouched.operand (untouched : before.Untouched after)
    (sp : after.registers.sp = before.registers.sp) {depth : Nat} {value : Value}
    (operand : after.Operand depth value) : before.Operand depth value := by
  rwa [Operand, untouched.heap, untouched.context, sp] at operand

/-- An array has a value as an element. The active context is written to with every message
and does not count as an array. -/
def Element (machine : Machine) (array value : Value) : Prop :=
  array ≠ machine.registers.activeContext ∧
    ∃ object, machine.heap.get? array = some object ∧
      object.species = machine.registers.specials.arrayClass ∧
      value ∈ (object.pointers?.getD #[]).toList

/-- Of all objects only the active context has been written to. -/
structure Restacked (before after : Machine) : Prop where
  context : after.registers.activeContext = before.registers.activeContext
  specials : after.registers.specials = before.registers.specials
  others : ∀ other, other ≠ before.registers.activeContext →
    after.heap.get? other = before.heap.get? other
  balances : before.heap.Balanced → before.heap.Balances after.heap

namespace Restacked

theorem of_untouched (untouched : before.Untouched after) : Restacked before after where
  context := untouched.context
  specials := untouched.specials
  others _ _ := by rw [untouched.heap]
  balances balanced := untouched.heap ▸ balanced.balances

theorem trans (early : Restacked before middle) (late : Restacked middle after) :
    Restacked before after where
  context := late.context.trans early.context
  specials := late.specials.trans early.specials
  others _ apart :=
    (late.others _ (early.context ▸ apart)).trans (early.others _ apart)
  balances balanced :=
    (early.balances balanced).trans (late.balances (early.balances balanced).balanced)

theorem of_setField {index : Nat} {value : Value}
    (context : after.registers.activeContext = before.registers.activeContext)
    (specials : after.registers.specials = before.registers.specials)
    (heap : after.heap = before.heap.setField before.registers.activeContext index value) :
    Restacked before after where
  context := context
  specials := specials
  others _ apart := heap ▸ before.heap.get?_update_other apart.symm _
  balances balanced := heap ▸ Heap.balances_update balanced _ _

/-- Arrays have the elements that they had. -/
theorem element (restacked : Restacked before after) {array value : Value}
    (element : after.Element array value) : before.Element array value := by
  rcases element with ⟨apart, object, here, species, member⟩
  rw [restacked.context] at apart
  rw [restacked.others array apart] at here
  exact ⟨apart, object, here, restacked.specials ▸ species, member⟩

end Restacked

/-- A message with `count` arguments performs another one, with arguments that it has passed
on. -/
inductive Performs (before : Machine) (count : Nat) (selector : Value) : Nat → Machine → Prop
  /-- The first argument is the selector and the others are the arguments. -/
  | shift {rest : Nat} {after : Machine} (restacked : before.Restacked after)
    (fewer : count = rest + 1) (isSelector : before.Operand rest selector)
    (others : ∀ depth < rest, ∀ value, after.Operand depth value → before.Operand depth value)
    (idle : rest = 0 → after.heap = before.heap) : Performs before count selector rest after
  /-- The arguments are the elements of an array that is an argument. -/
  | spread {rest depth : Nat} {array : Value} {after : Machine} (restacked : before.Restacked after)
    (several : 2 ≤ count) (isArgument : depth < count) (isArray : before.Operand depth array)
    (elements : ∀ depth < rest, ∀ value, after.Operand depth value → before.Element array value) :
    Performs before count selector rest after

/-- A machine with the same objects and the same stack passes on the same arguments. -/
theorem Performs.of_untouched {count rest : Nat} {selector : Value}
    (performs : middle.Performs count selector rest after) (untouched : before.Untouched middle)
    (sp : middle.registers.sp = before.registers.sp) :
    before.Performs count selector rest after := by
  have same : before.Restacked middle := .of_untouched untouched
  cases performs with
  | shift restacked fewer isSelector others idle =>
    exact .shift (same.trans restacked) fewer (untouched.operand sp isSelector)
      (fun depth shallow value found => untouched.operand sp (others depth shallow value found))
      fun none => (idle none).trans untouched.heap
  | spread restacked several isArgument isArray elements =>
    exact .spread (same.trans restacked) several isArgument (untouched.operand sp isArray)
      fun depth shallow value found => same.element (elements depth shallow value found)

end Machine

namespace Run

open Machine

/-! ## The stack -/

theorem operand_finds (machine : Machine) (depth : Nat) :
    (operand depth).Ensures machine fun value after =>
      machine.Operand depth value ∧ after = machine := by
  refine (ensures_getRegisters machine).bindExactly ?_
  split
  · rename_i inside
    exact (ensures_fetch machine _ _).mono fun value after fetched => ⟨⟨inside, fetched.1⟩, fetched.2⟩
  · exact .fail

theorem operand_eq_ok {machine : Machine} {depth : Nat} {value : Value}
    (found : machine.Operand depth value) : operand depth machine = .ok value machine := by
  rw [operand, bind_ok getRegisters_apply, if_pos found.1]
  exact fetch_ok found.2

theorem argument_finds (machine : Machine) (count index : Nat) :
    (argument count index).Ensures machine fun value after =>
      index < count ∧ machine.Operand (count - 1 - index) value ∧ after = machine := by
  unfold argument
  split
  · rename_i inside
    exact (operand_finds machine _).mono fun value after found => ⟨inside, found⟩
  · exact .throw

theorem classOf_finds (machine : Machine) (value : Value) :
    (classOf value).Ensures machine fun species after =>
      after = machine ∧ (value.isSmall = false →
        ∃ object, machine.heap.get? value = some object ∧ object.species = species) := by
  unfold classOf
  split
  · rename_i small
    refine (ensures_getRegisters machine).bindExactly (.pure ⟨rfl, fun isObject => ?_⟩)
    cases small.symm.trans isObject
  · refine (ensures_readHeap machine _).bindTo fun object found => .pure ⟨rfl, fun _ => ?_⟩
    exact ⟨object, Heap.object_eq_ok_iff.mp found, rfl⟩

/-- Values that are pushed lie in the slots above the ones in use. -/
theorem pushAll_ensures (values : List Value) (machine : Machine) :
    (values.forM push).Ensures machine fun _ after =>
      machine.Restacked after ∧
        after.registers.sp = machine.registers.sp + values.length ∧
        (∀ index ≤ machine.registers.sp,
          after.heap.fetch machine.registers.activeContext index
            = machine.heap.fetch machine.registers.activeContext index) ∧
        ∀ index, machine.registers.sp < index → index ≤ after.registers.sp → ∀ value,
          after.heap.fetch machine.registers.activeContext index = .ok value →
            value ∈ values := by
  induction values generalizing machine with
  | nil =>
    refine .pure ⟨.of_untouched ⟨rfl, rfl, rfl⟩, rfl, fun _ _ => rfl, fun index above below => ?_⟩
    omega
  | cons first rest induction =>
    refine (ensures_push machine first).bind fun _ pushed known => ?_
    rcases known with ⟨stored, rfl⟩
    refine (induction _).mono fun _ after ended => ?_
    rcases ended with ⟨restacked, sp, below, above⟩
    dsimp only at sp below above
    refine ⟨.trans ?_ restacked, ?_, ?_, ?_⟩
    · exact .of_setField rfl rfl rfl
    · rw [sp, List.length_cons]
      omega
    · intro index low
      refine (below index (Nat.le_succ_of_le low)).trans (Heap.fetch_setField_other (.inr ?_))
      omega
    · intro index high low value fetched
      by_cases bottom : index = machine.registers.sp + 1
      · subst bottom
        rw [below _ (Nat.le_refl _)] at fetched
        rw [Heap.eq_of_fetch_setField_same fetched]
        exact List.mem_cons_self
      · exact List.mem_cons_of_mem first (above index (by omega) low value fetched)

end Run

namespace Reply

open Run Machine

/-- What is moved down lies one slot lower. -/
theorem shiftDown_ensures (count slot : Nat) (machine : Machine) :
    (shiftDown machine.registers.activeContext count slot).Ensures machine fun _ after =>
      machine.Restacked after ∧ after.registers = machine.registers ∧
        (∀ index < slot, after.heap.fetch machine.registers.activeContext index
          = machine.heap.fetch machine.registers.activeContext index) ∧
        (∀ index, slot ≤ index → index < slot + count → ∀ value,
          after.heap.fetch machine.registers.activeContext index = .ok value →
            machine.heap.fetch machine.registers.activeContext (index + 1) = .ok value) ∧
        (count = 0 → after = machine) := by
  induction count generalizing slot machine with
  | zero =>
    refine .pure ⟨.of_untouched ⟨rfl, rfl, rfl⟩, rfl, fun _ _ => rfl, fun index low high => ?_, fun _ => rfl⟩
    omega
  | succ count induction =>
    refine (ensures_fetch machine _ _).bindTo fun moved fetched => ?_
    refine (ensures_store machine _ slot moved).bindTo fun _ stored => ?_
    refine (induction (slot + 1) (machine.withHeap
      (machine.heap.setField machine.registers.activeContext slot moved))).mono
      fun _ after ended => ?_
    rcases ended with ⟨restacked, registers, below, shifted, -⟩
    simp only [registers_withHeap, heap_withHeap] at below shifted
    refine ⟨.trans ?_ restacked, registers, ?_, ?_, nofun⟩
    · exact .of_setField rfl rfl rfl
    · intro index low
      exact (below index (Nat.lt_succ_of_lt low)).trans
        (Heap.fetch_setField_other (.inr (Nat.ne_of_gt low)))
    · intro index low high value found
      by_cases first : index = slot
      · subst first
        rw [below index (Nat.lt_succ_self index)] at found
        exact Heap.eq_of_fetch_setField_same found ▸ fetched
      · have later := shifted index (by omega) (by omega) value found
        rwa [Heap.fetch_setField_other (.inr (by omega))] at later

theorem perform_delegates (count : Nat) (machine : Machine) :
    Delegates (machine.Performs count) (fun sender => perform sender count) true machine := by
  refine .ite (fun _ => .const) fun positive => ?_
  refine .bind (argument_finds machine count 0) ?_
  rintro selector between ⟨-, first, rfl⟩
  refine .ite (fun _ => .const) fun _ => ?_
  refine .bind (operand_finds between count) ?_
  rintro receiver machine ⟨⟨inside, -⟩, rfl⟩
  refine .bind (classOf_finds machine receiver) ?_
  rintro species between ⟨rfl, -⟩
  refine .bind (mismatches_looks between between (.refl between)) ?_
  rintro mismatched _ ⟨⟨cache, rfl⟩, -⟩
  refine .ite (fun _ => .const) fun _ => ?_
  refine .bindOk getRegisters_apply ?_
  refine .bind (shiftDown_ensures _ _ _) ?_
  rintro - shifted ⟨restacked, registers, -, lower, idle⟩
  refine .bind (ensures_drop shifted 1) ?_
  rintro - _ rfl
  dsimp only at registers lower idle
  have sp : shifted.registers.sp = between.registers.sp := by rw [registers]
  have context : shifted.registers.activeContext = between.registers.activeContext := by
    rw [registers]
  refine .send (.shift (.trans ?_ (.trans restacked ?_)) (by omega) first ?_ fun none => ?_)
  · exact .of_untouched ⟨rfl, rfl, rfl⟩
  · exact .of_untouched ⟨rfl, rfl, rfl⟩
  · rintro depth shallow value ⟨-, fetched⟩
    dsimp only at fetched
    rw [context, sp] at fetched
    have higher := lower _ (by omega) (by omega) value fetched
    have slot : between.registers.sp - 1 - depth + 1 = between.registers.sp - depth := by omega
    exact ⟨by omega, slot ▸ higher⟩
  · rw [idle none]

theorem length_elements (object : HeapObject) :
    (object.pointers?.getD #[]).toList.length = object.pointerCount := by
  rw [HeapObject.pointerCount, Body.pointerCount, HeapObject.pointers?]
  cases object.body.pointers? <;> rfl

theorem performWithArray_delegates {count depth : Nat} {array : Value} (selector species : Value)
    {machine : Machine} (several : 2 ≤ count) (isArgument : depth < count)
    (operand : machine.Operand depth array) :
    Delegates (machine.Performs count)
      (fun sender => performWithArray sender count selector array species) true machine := by
  refine .ite (fun _ => .const) fun objects => ?_
  refine .bindOk getRegisters_apply ?_
  refine .bind (classOf_finds machine array) ?_
  rintro arrayClass between ⟨rfl, classified⟩
  refine .ite (fun _ => .const) fun isArray => ?_
  refine .bind (ensures_readHeap between _) ?_
  rintro object machine ⟨found, rfl⟩
  have here := Heap.object_eq_ok_iff.mp found
  refine .bindOk getHeap_apply ?_
  refine .ite (fun _ => .const) fun room => ?_
  refine .bind (mismatches_looks machine machine (.refl machine)) ?_
  rintro mismatched _ ⟨⟨cache, rfl⟩, -⟩
  refine .ite (fun _ => .const) fun _ => ?_
  refine .bind (ensures_drop _ count) ?_
  rintro - _ rfl
  refine .bind (pushAll_ensures _ _) ?_
  rintro - pushed ⟨restacked, sp, -, above⟩
  have context := restacked.context
  dsimp only at sp above context
  refine .send (.spread (.trans ?_ restacked) several isArgument operand ?_)
  · exact .of_untouched ⟨rfl, rfl, rfl⟩
  · rintro other shallow value ⟨-, fetched⟩
    rw [context, sp] at fetched
    have member := above _ (by omega) (by omega) value fetched
    refine ⟨?_, object, here, ?_, member⟩
    · -- The active context has no room for as many arguments as it has fields.
      rintro rfl
      rw [Heap.pointerCount, here, Option.map_some, Option.getD_some, length_elements] at room
      omega
    · rcases classified (by simpa using fun small => objects (.inr small)) with ⟨_, again, rfl⟩
      cases again.symm.trans here
      exact not_not.mp isArray

theorem performWithArguments_delegates (count : Nat) (machine : Machine) :
    Delegates (machine.Performs count) (fun sender => performWithArguments sender count) true
      machine := by
  refine .ite (fun _ => .const) fun two => ?_
  refine .bind (argument_finds machine count 0) ?_
  rintro selector between ⟨-, -, rfl⟩
  refine .bind (argument_finds between count 1) ?_
  rintro array machine ⟨inside, operand, rfl⟩
  refine .bind (operand_finds machine count) ?_
  rintro receiver between ⟨-, rfl⟩
  refine .bind (classOf_finds between receiver) ?_
  rintro species machine ⟨rfl, -⟩
  exact performWithArray_delegates selector species (by omega) (by omega) operand

theorem performInSuperclass_delegates (count : Nat) (machine : Machine) :
    Delegates (machine.Performs count) (fun sender => performInSuperclass sender count) true
      machine := by
  refine .ite (fun _ => .const) fun three => ?_
  refine .bind (argument_finds machine count 0) ?_
  rintro selector between ⟨-, -, rfl⟩
  refine .bind (argument_finds between count 1) ?_
  rintro array machine ⟨inside, operand, rfl⟩
  refine .bind (argument_finds machine count 2) ?_
  rintro lookup between ⟨-, -, rfl⟩
  refine .bind (operand_finds between count) ?_
  rintro receiver machine ⟨-, rfl⟩
  refine .bind (classOf_finds machine receiver) ?_
  rintro species between ⟨rfl, -⟩
  refine .ite (fun _ => .const) fun _ => .bindOk getHeap_apply ?_
  refine .bind (Looks.inheritsFrom between between (.refl between)) ?_
  rintro inherits _ ⟨⟨cache, rfl⟩, -⟩
  refine .ite (fun _ => .const) fun _ => ?_
  have several : 2 ≤ count := by omega
  have isArgument : count - 1 - 1 < count := by omega
  refine .mono (performWithArray_delegates selector lookup several isArgument operand) ?_
  exact fun _ _ _ performs => performs.of_untouched ⟨rfl, rfl, rfl⟩ rfl

end Reply

namespace Run

theorem primitive_delegates (primitive : Primitive) (count : Nat) (machine : Machine) :
    Delegates (machine.Performs count) (fun sender => primitive.run sender count) true machine := by
  cases primitive with
  | perform => exact Reply.perform_delegates count machine
  | performWithArguments => exact Reply.performWithArguments_delegates count machine
  | performInSuperclass => exact Reply.performInSuperclass_delegates count machine
  | float operation => cases operation <;> exact .const
  | _ => exact .const

theorem respond_delegates (number : Nat) (machine : Machine) :
    Delegates (machine.Performs machine.registers.argumentCount)
      (fun sender => respond sender number) true machine := by
  refine .ite (fun _ => .const) fun _ => ?_
  cases Primitive.ofNumber? number with
  | none => exact .const
  | some primitive =>
    refine .bindOk getRegisters_apply ?_
    exact (primitive_delegates primitive _ machine).andThen rfl

end Run

end Smalltalk

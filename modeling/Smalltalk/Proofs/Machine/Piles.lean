import Smalltalk.Machine.Lookup
import Smalltalk.Proofs.Frame.Provision
import Smalltalk.Proofs.Frame.Saved
import Smalltalk.Proofs.Heap.Calls
import Smalltalk.Proofs.Heap.Chains
import Smalltalk.Proofs.Lookup.Kept
import Smalltalk.Proofs.Machine.Moves
import Smalltalk.Proofs.Primitive.Performs

namespace Smalltalk

/-! A message without a method is packed into an object, which may in turn be the selector of
a message without a method. The objects pile up: each holds the one before, and as long as
the last of them is the selector of the message being sent, no collection frees any of
them. -/

namespace Heap

/-- Messages each of which has the next one as its selector. -/
structure Piled (heap : Heap) (pile : List Value) : Prop where
  chain : pile.IsChain fun message selector =>
    heap.fetch message MessageField.selector = .ok selector
  distinct : pile.Nodup
  live : ∀ message ∈ pile, ∃ slot, message = .object slot ∧ heap.Live slot

namespace Piled

variable {heap before after : Heap} {pile : List Value}

theorem nil (heap : Heap) : heap.Piled [] :=
  ⟨List.isChain_nil, List.nodup_nil, fun _ member => absurd member List.not_mem_nil⟩

/-- There is no room for more messages than can be registered. -/
theorem length_le (piled : heap.Piled pile) (balanced : heap.Balanced) :
    pile.length ≤ heap.limit := by
  have few : pile.length ≤ heap.table.toList.length := by
    refine length_le_of_listed piled.distinct fun message member => ?_
    rcases piled.live message member with ⟨slot, rfl, live⟩
    exact ⟨slot, balanced.listed slot live, rfl⟩
  rw [Array.length_toList] at few
  exact few.trans (balanced.size_le_capacity.trans balanced.capacity_le_limit)

/-- A pile stands as long as its messages are there and keep their selectors. -/
theorem transport (piled : before.Piled pile)
    (same : ∀ message ∈ pile, after.fetch message MessageField.selector
      = before.fetch message MessageField.selector)
    (live : ∀ slot, before.Live slot → Value.object slot ∈ pile → after.Live slot) :
    after.Piled pile where
  chain := piled.chain.imp_of_mem_imp fun message _ member _ leads =>
    (same message member).trans leads
  distinct := piled.distinct
  live message member := by
    rcases piled.live message member with ⟨slot, rfl, here⟩
    exact ⟨slot, rfl, live slot here member⟩

/-- Writing to another object, or to another field, leaves a pile alone. -/
theorem setField (piled : heap.Piled pile) {object : Value} {index : Nat}
    (apart : object ∉ pile ∨ index ≠ MessageField.selector) (value : Value) :
    (heap.setField object index value).Piled pile := by
  refine piled.transport (fun message member => ?_) fun slot live _ => ?_
  · refine fetch_setField_other (apart.imp_left fun absent => ?_)
    rintro rfl
    exact absent member
  · exact (live_update_iff object _ slot).mpr live

theorem cons (piled : heap.Piled pile) {slot : Nat} (live : heap.Live slot)
    (fresh : Value.object slot ∉ pile)
    (selector : ∀ message ∈ pile.head?,
      heap.fetch (.object slot) MessageField.selector = .ok message) :
    heap.Piled (.object slot :: pile) where
  chain := piled.chain.cons selector
  distinct := List.nodup_cons.mpr ⟨fresh, piled.distinct⟩
  live := List.forall_mem_cons.mpr ⟨⟨slot, rfl, live⟩, piled.live⟩

end Piled

end Heap

namespace Rooted.Survives

variable {before after : Rooted Registers} {pile : List Value}

/-- Collections keep a pile whose last message they keep. -/
theorem holds_piled (survives : before.Survives after) (piled : before.heap.Piled pile)
    (last : ∀ message ∈ pile.head?, after.heap.Holds message) :
    ∀ message ∈ pile, after.heap.Holds message := by
  induction pile with
  | nil => exact fun _ member => absurd member List.not_mem_nil
  | cons first rest induction =>
    have held : after.heap.Holds first := last first rfl
    refine List.forall_mem_cons.mpr ⟨held, induction ?_ fun second isSecond => ?_⟩
    · exact ⟨piled.chain.tail, (List.nodup_cons.mp piled.distinct).2,
        fun message member => piled.live message (List.mem_cons_of_mem _ member)⟩
    · have leads := piled.chain.rel_head? isSecond
      rcases Heap.mem_references_of_fetch leads with ⟨object, here, member⟩
      rcases piled.live second (List.mem_cons_of_mem _ (List.mem_of_mem_head? isSecond)) with
        ⟨slot, rfl, live⟩
      cases first with
      | small n => cases here
      | object place =>
        exact survives.closed place object ((survives.cell place held).trans here) _ member live

end Rooted.Survives

namespace Machine

/-- The last message of a pile is the selector of the message being sent. -/
def Tops (pile : List Value) (machine : Machine) : Prop :=
  ∀ message ∈ pile.head?, message = machine.registers.messageSelector

theorem Tops.of_selector {pile : List Value} {before after : Machine} (tops : Tops pile before)
    (same : after.registers.messageSelector = before.registers.messageSelector) :
    Tops pile after :=
  fun message isLast => (tops message isLast).trans same.symm

/-- A new object is made beside a pile. -/
structure Joins (machine : Machine) (pile : List Value) (object : HeapObject) (value : Value)
    (after : Machine) : Prop where
  balances : machine.heap.Balances after.heap
  piled : after.heap.Piled pile
  selector : after.registers.messageSelector = machine.registers.messageSelector
  placed : ∃ slot hash, value = .object slot ∧ .object slot ∉ pile ∧
    after.heap.cell? slot = some { object with hash }

end Machine

namespace Run

open Machine

variable {machine : Machine} {pile : List Value}

theorem register_joins (balanced : machine.heap.Balanced) (piled : machine.heap.Piled pile)
    (tops : Tops pile machine) (object : HeapObject) :
    (register object).Ensures machine (machine.Joins pile object) := by
  refine (ensures_onHeap machine _).mono ?_
  rintro value _ ⟨rooted, registered, rfl⟩
  let before : Rooted Registers := ⟨machine.heap, machine.registers⟩
  have balances : before.heap.Balances (HeapM.after (HeapM.register object) before).heap :=
    HeapM.register_balances balanced object
  rw [HeapM.after_of_ok registered] at balances
  obtain ⟨heap, slot, hash, rfl, survives, -, places⟩ :=
    HeapM.register_cases balanced.toConsistent registered
  have selector : rooted.roots.messageSelector = machine.registers.messageSelector := by
    simpa [Registers.forget] using
      congrArg Registers.messageSelector (Registers.forget_of_flushed survives.flushed)
  have held : ∀ message ∈ pile, heap.Holds message := by
    refine survives.holds_piled piled fun message isLast => survives.held message ?_ ?_
    · rw [tops message isLast, ← selector]
      simp [Rooted.rootValues, RootSet.values, Registers.values]
    · rcases piled.live message (List.mem_of_mem_head? isLast) with ⟨slot, rfl, live⟩
      exact live
  have apart : .object slot ∉ pile := fun member => places.dead (held _ member)
  have collected : heap.Piled pile :=
    piled.transport (fun message member => survives.fetch_eq (held message member) _)
      fun slot _ member => held _ member
  have elsewhere {other : Nat} (member : .object other ∈ pile) :
      rooted.heap.cell? other = heap.cell? other := by
    refine places.others other ?_
    rintro rfl
    exact apart member
  refine ⟨balances, collected.transport ?_ ?_, selector, slot, hash, rfl, apart, places.filled⟩
  · intro message member
    rcases piled.live message member with ⟨other, rfl, -⟩
    have same : rooted.heap.get? (.object other) = heap.get? (.object other) := elsewhere member
    exact Heap.fetch_congr same _
  · intro other live member
    rwa [Heap.Live, elsewhere member]

theorem instantiate_joins (balanced : machine.heap.Balanced) (piled : machine.heap.Piled pile)
    (tops : Tops pile machine) (species : Value) (size : Nat) (nil : Value) :
    (onHeap (HeapM.instantiate species size nil)).Ensures machine fun value after =>
      ∃ object, machine.Joins pile object value after := by
  rw [HeapM.instantiate, onHeap_read]
  refine (ensures_readHeap machine _).bindTo fun description _ => ?_
  cases description.int? with
  | none =>
    intro _ _ stopped
    cases stopped
  | some bits =>
    exact (register_joins balanced piled tops _).mono fun _ _ joins => ⟨_, joins⟩

/-- Operands are copied into an object apart from the pile. -/
theorem copyOperands_piles (balanced : machine.heap.Balanced) (piled : machine.heap.Piled pile)
    {target : Value} (apart : target ∉ pile) (count index : Nat) :
    (copyOperands target count index).Ensures machine fun _ after =>
      after.registers = machine.registers ∧ machine.heap.Balances after.heap ∧
        after.heap.Piled pile := by
  induction count generalizing machine index with
  | zero => exact .pure ⟨rfl, balanced.balances, piled⟩
  | succ count induction =>
    refine (ensures_operand machine count).bindTo fun value _ => ?_
    refine (ensures_store machine target index value).bindTo fun _ _ => ?_
    have stored : machine.heap.Balances (machine.heap.setField target index value) :=
      Heap.balances_update balanced target _
    refine (induction stored.balanced (piled.setField (.inl apart) value) (index + 1)).mono ?_
    rintro - after ⟨registers, balances, piled⟩
    exact ⟨registers, stored.trans balances, piled⟩

/-- Packing a message puts it on the pile and on the stack. -/
theorem packMessage_piles (balanced : machine.heap.Balanced) (piled : machine.heap.Piled pile)
    (tops : Tops pile machine) (species : Value) :
    (packMessage species).Ensures machine fun _ after =>
      ∃ message, machine.heap.Balances after.heap ∧ after.heap.Piled (message :: pile) ∧
        (∀ value, after.Operand 0 value → value = message) ∧
        after.registers.argumentCount = 1 := by
  refine (ensures_getRegisters machine).bindExactly ?_
  refine (instantiate_joins balanced piled tops _ _ _).bind ?_
  rintro arguments first ⟨_, made⟩
  have apart : arguments ∉ pile := by
    rcases made.placed with ⟨slot, hash, rfl, apart, -⟩
    exact apart
  refine (copyOperands_piles made.balances.balanced made.piled apart _ 0).bind ?_
  rintro - second ⟨registers, copied, piledSecond⟩
  have same : second.registers.messageSelector = machine.registers.messageSelector :=
    registers ▸ made.selector
  refine (messageHasLookupClass_ensures second).bindChange fun hasClass => ?_
  refine (register_joins copied.balanced piledSecond (tops.of_selector same) _).bind ?_
  rintro _ third ⟨placed, piledThird, -, slot, hash, rfl, fresh, filled⟩
  have joined : third.heap.Piled (.object slot :: pile) := by
    refine piledThird.cons (Heap.live_of_cell? filled) fresh fun message isLast => ?_
    refine Heap.fetch_eq_ok_iff.mpr ⟨_, Heap.pointers_eq_ok_iff.mpr ⟨_, filled, rfl⟩, ?_⟩
    rw [tops message isLast]
    cases hasClass <;> rfl
  refine (ensures_drop third _).bindChange fun _ => ?_
  refine (ensures_push _ _).bind ?_
  rintro - pushed ⟨top, rfl⟩
  refine (ensures_modifyRegisters _ _).mono ?_
  rintro - after rfl
  refine ⟨.object slot, ?_, joined.setField (.inr ?_) _, ?_, rfl⟩
  · refine made.balances.trans (copied.trans (placed.trans ?_))
    exact Heap.balances_update placed.balanced _ _
  · exact Nat.succ_ne_zero _
  · rintro value ⟨-, found⟩
    exact Except.ok.inj (found.symm.trans top)

end Run

end Smalltalk

import Smalltalk.Proofs.Indexed.Inline

namespace Smalltalk

/-! When the table is full, making a number for a word collects what nobody needs. What the
caches and the message being sent have kept until then may make a difference to that, and
with it to the place that the number gets. Nothing else that lasts is different. -/

namespace Registers

/-- The values that are held for longer than a message, and not only for speed. -/
def lasting (registers : Registers) : List Value :=
  registers.specials.values
    ++ [registers.activeContext, registers.homeContext, registers.method, registers.receiver]
    ++ registers.scratch

theorem mem_forget_of_mem_lasting {registers : Registers} {value : Value}
    (member : value ∈ registers.lasting) : value ∈ registers.forget.values := by
  rw [values_forget]
  simp only [lasting, List.mem_append, List.mem_cons, List.not_mem_nil, or_false] at member ⊢
  tauto

end Registers

namespace Machine

/-- The machine without what is given up on a flush, too. -/
def bare (machine : Machine) : Machine :=
  { machine.withoutSend with registers := machine.withoutSend.registers.forget }

/-- The machine with another heap and another top of the stack. -/
def withTop (machine : Machine) (heap : Heap) (sp : Nat) : Machine :=
  { machine with heap, registers := { machine.registers with sp } }

/-- Whether an object is reached from what is held for longer than a message. -/
def Retains (machine : Machine) : Nat → Prop :=
  machine.heap.Reaches (machine.registers.lasting.filterMap Value.slot?)

/-- How a new object comes into a machine: into a cell that nothing retained had, with all
that is retained as it was. -/
structure Acquires (machine : Machine) (object : HeapObject) (slot : Nat) (after : Machine) :
    Prop where
  bare : after.bare = (machine.withHeap after.heap).bare
  lastHash : after.heap.lastHash = Heap.nextHash machine.heap.lastHash
  unused : ¬ machine.Retains slot
  filled : after.heap.cell? slot
    = some { object with hash := machine.heap.advanceHash.currentHash }
  retained : ∀ other, machine.Retains other →
    after.heap.cell? other = machine.heap.cell? other

/-- How a new object comes to the top of the stack in place of two operands. -/
structure Boxes (machine : Machine) (object : HeapObject) (slot : Nat) (after : Machine) :
    Prop where
  bare : after.bare = (machine.withTop after.heap (machine.registers.sp - 2 + 1)).bare
  lastHash : after.heap.lastHash = Heap.nextHash machine.heap.lastHash
  unused : ¬ machine.Retains slot
  filled : after.heap.cell? slot
    = some { object with hash := machine.heap.advanceHash.currentHash }
  retained : ∀ other, machine.Retains other →
    after.heap.cell? other = (machine.heap.setField machine.registers.activeContext
      (machine.registers.sp - 2 + 1) (.object slot)).cell? other

variable {first second : Machine}

theorem Alike.lasting (alike : first.Alike second) :
    first.registers.lasting = second.registers.lasting :=
  congrArg (fun machine => machine.registers.lasting) alike

theorem bare_withTop (same : first.bare = second.bare) (heap : Heap) (sp : Nat) :
    (first.withTop heap sp).bare = (second.withTop heap sp).bare := by
  have apart (machine : Machine) :
      (machine.withTop heap sp).bare = machine.bare.withTop heap sp := rfl
  rw [apart, apart, same]

theorem Alike.bare (alike : first.Alike second) : first.bare = second.bare :=
  congrArg (fun machine => { machine with registers := machine.registers.forget }) alike

end Machine

theorem Registers.bare_of_flushed {registers last : Registers} (flushed : Flushed registers last)
    (machine : Machine) :
    { machine with registers := last }.bare = { machine with registers }.bare := by
  induction flushed with
  | refl => rfl
  | flush _ induction => exact induction

namespace Heap

variable {first second : Heap}

theorem cell?_setField_congr {slot : Nat} (same : first.cell? slot = second.cell? slot)
    (object : Value) (index : Nat) (value : Value) :
    (first.setField object index value).cell? slot
      = (second.setField object index value).cell? slot := by
  by_cases here : object = .object slot
  · subst here
    have changed (heap : Heap) : (heap.setField (.object slot) index value).cell? slot = _ :=
      heap.cell?_updateCell_same slot _
    rw [changed, changed, same]
  · have kept (heap : Heap) : (heap.setField object index value).cell? slot = heap.cell? slot :=
      heap.get?_update_other here _
    rw [kept, kept, same]

end Heap

namespace Machine

variable {machine found : Machine}

/-- What is retained is needed while an object is registered in a machine that is alike. -/
theorem Retains.needed (alike : found.Alike machine) {slot : Nat}
    (retained : machine.Retains slot) (object : HeapObject) :
    (⟨found.heap, found.registers⟩ : Rooted Registers).Needs object slot := by
  rw [Rooted.Needs, alike.heap]
  refine Heap.Reaches.mono retained fun seed member => ?_
  rcases List.mem_filterMap.mp member with ⟨value, held, names⟩
  rw [← alike.lasting] at held
  exact List.mem_filterMap.mpr ⟨value,
    List.mem_append_left _ (Registers.mem_forget_of_mem_lasting held), names⟩

/-- The active context is retained, so its fields are. -/
theorem retains_activeContext {index : Nat} {value : Value}
    (fetched : machine.heap.fetch machine.registers.activeContext index = .ok value) :
    ∃ slot, machine.registers.activeContext = .object slot ∧ machine.Retains slot := by
  rcases Heap.mem_references_of_fetch fetched with ⟨owner, here, -⟩
  cases context : machine.registers.activeContext with
  | small n =>
    rw [context] at here
    cases here
  | object slot =>
    rw [context] at here
    refine ⟨slot, rfl, .seed (List.mem_filterMap.mpr ⟨.object slot, ?_, rfl⟩)
      (Heap.live_of_cell? here)⟩
    rw [← context]
    simp [Registers.lasting]

end Machine

namespace Run

open Reply

variable {machine found : Machine}

/-- A registration in a machine that is alike. -/
theorem register_cases (alike : found.Alike machine) (consistent : machine.heap.Consistent)
    (object : HeapObject) :
    (∃ slot after, register object found = .ok (.object slot) after ∧
      machine.Acquires object slot after) ∨
    ∃ capacity after, register object found
      = .error (.error (.memory (.tableFull capacity))) after := by
  rw [register, onHeap]
  cases made : HeapM.register object ⟨found.heap, found.registers⟩ with
  | error error rooted =>
    rcases HeapM.register_error made with ⟨capacity, rfl⟩
    exact .inr ⟨capacity, _, rfl⟩
  | ok value rooted =>
    have sound : found.heap.Consistent := alike.heap ▸ consistent
    rcases HeapM.register_admits sound made with ⟨slot, kept, rfl, admits⟩
    rcases HeapM.register_cases sound made with ⟨_, _, _, -, survives, -, -⟩
    have same : { found with registers := rooted.roots }.bare = machine.bare :=
      (Registers.bare_of_flushed survives.flushed found).trans alike.bare
    refine .inl ⟨slot, _, rfl, ?_⟩
    exact
      { bare := congrArg (·.withHeap rooted.heap) same
        lastHash := by rw [admits.lastHash, alike.heap]
        unused := fun retained => admits.unused (admits.needed slot (retained.needed alike _)).1
        filled := by
          rw [admits.filled, Heap.currentHash, admits.lastHash, alike.heap]
          rfl
        retained := fun other retained => by
          rw [(admits.needed other (retained.needed alike _)).2, alike.heap] }

theorem replace_apply {heap : Heap} {count : Nat} {value : Value}
    (stored : machine.heap.store machine.registers.activeContext
      (machine.registers.sp - count + 1) value = .ok heap) :
    replace count value machine
      = .ok () (machine.withTop heap (machine.registers.sp - count + 1)) := by
  refine (bind_ok (modifyRegisters_apply _)).trans ((bind_ok (modifyRegisters_apply _)).trans
    ((bind_ok getRegisters_apply).trans ?_))
  simp only [store, stored]
  rfl

/-- What was acquired can be put on the stack. -/
theorem replace_boxes {object : HeapObject} {slot : Nat} {value : Value}
    (acquires : machine.Acquires object slot found)
    (stack : machine.heap.fetch machine.registers.activeContext
      (machine.registers.sp - 2 + 1) = .ok value) :
    ∃ after, replace 2 (.object slot) found = .ok () after ∧ machine.Boxes object slot after := by
  have sp : found.registers.sp = machine.registers.sp :=
    congrArg (fun machine => machine.registers.sp) acquires.bare
  have active : found.registers.activeContext = machine.registers.activeContext :=
    congrArg (fun machine => machine.registers.activeContext) acquires.bare
  rcases Machine.retains_activeContext stack with ⟨place, context, retained⟩
  let top := machine.registers.sp - 2 + 1
  let heap := found.heap.setField (.object place) top (.object slot)
  have stored : found.heap.store found.registers.activeContext (found.registers.sp - 2 + 1)
      (.object slot) = .ok heap := by
    rw [active, sp, context]
    rw [context] at stack
    rcases Heap.fetch_eq_ok_iff.mp stack with ⟨fields, readable, inside⟩
    refine Heap.store_eq_ok_iff.mpr ⟨⟨fields, ?_, (Array.getElem?_eq_some_iff.mp inside).1⟩, rfl⟩
    have same : found.heap.get? (.object place) = machine.heap.get? (.object place) :=
      acquires.retained place retained
    rw [← readable, Heap.pointers, Heap.object, same, Heap.pointers, Heap.object]
  have elsewhere : Value.object place ≠ .object slot := by
    intro equal
    cases equal
    exact acquires.unused retained
  refine ⟨_, replace_apply stored, ?_⟩
  exact
    { bare := by
        rw [sp]
        exact Machine.bare_withTop acquires.bare _ _
      lastHash := acquires.lastHash
      unused := acquires.unused
      filled := (found.heap.get?_update_other elsewhere _).trans acquires.filled
      retained := fun other retained => by
        rw [context]
        exact Heap.cell?_setField_congr (acquires.retained other retained) _ _ _ }

/-- Whether a computation puts a new object in place of two operands, unless there is no
room for it. -/
def BoxesIn {α : Type} (run : Run α) (machine found : Machine) (object : HeapObject)
    (result : α) : Prop :=
  (∃ slot after, run found = .ok result after ∧ machine.Boxes object slot after) ∨
    ∃ capacity after, run found = .error (.error (.memory (.tableFull capacity))) after

namespace BoxesIn

variable {α β : Type} {run other : Run α} {next : α → Run β} {between : Machine}
  {object : HeapObject} {result : α} {last : β}

theorem of_eq (boxes : run.BoxesIn machine found object result)
    (same : other between = run found) : other.BoxesIn machine between object result := by
  rw [BoxesIn, same]
  exact boxes

/-- What changes nothing may follow. -/
theorem bind (boxes : run.BoxesIn machine found object result)
    (rest : ∀ after, next result after = .ok last after) :
    (run >>= next).BoxesIn machine found object last := by
  rcases boxes with ⟨slot, after, ended, boxes⟩ | ⟨capacity, after, refused⟩
  · exact .inl ⟨slot, after, (bind_ok ended).trans (rest after), boxes⟩
  · exact .inr ⟨capacity, after, bind_error refused⟩

end BoxesIn

/-- The place of the lower of two operands can be read. -/
theorem stack_of_operands {receiver index : Value}
    (below : operand 1 machine = .ok receiver machine)
    (above : operand 0 machine = .ok index machine) :
    ∃ value, machine.heap.fetch machine.registers.activeContext
      (machine.registers.sp - 2 + 1) = .ok value := by
  have inside : 1 ≤ machine.registers.sp := by
    by_contra outside
    have failed : operand 1 machine = (fail (.memory
        (.indexOutOfBounds machine.registers.activeContext 0)) : Run Value) machine :=
      (bind_ok getRegisters_apply).trans (by rw [if_neg outside])
    cases failed.symm.trans below
  rcases ensures_operand machine 1 receiver machine below with ⟨lower, -⟩
  rcases ensures_operand machine 0 index machine above with ⟨upper, -⟩
  by_cases one : machine.registers.sp = 1
  · rw [one] at upper ⊢
    exact ⟨index, upper⟩
  · have same : machine.registers.sp - 2 + 1 = machine.registers.sp - 1 := by omega
    rw [same]
    exact ⟨receiver, lower⟩

variable {part : IndexedPart} {place : Nat} {word : UInt32}

/-- Reading a large word leaves its number on the stack. -/
theorem readElement_boxes (alike : found.Alike machine) (consistent : machine.heap.Consistent)
    {value : Value} (stack : machine.heap.fetch machine.registers.activeContext
      (machine.registers.sp - 2 + 1) = .ok value)
    (words : part.kind = .words)
    (read : wordAt part.object (part.fixed + place) machine = .ok word machine)
    (large : Value.ofInt? word.toNat = none) :
    (do succeed 1 (← readElement part place)).BoxesIn machine found
      (wordNumber machine.registers.specials word) true := by
  have again : wordAt part.object (part.fixed + place) found = .ok word found :=
    wordAt_blind.reads (fun machine => (wordAt_ensures machine _ _).mono fun _ _ found => found.2)
      alike read
  have made : readElement part place found
      = register (wordNumber machine.registers.specials word) found := by
    rw [readElement, words, ← alike.specials]
    exact (bind_ok again).trans (wordObject_boxes large found)
  rcases register_cases alike consistent (wordNumber machine.registers.specials word) with
    ⟨slot, between, ended, acquires⟩ | ⟨capacity, after, refused⟩
  · rcases replace_boxes acquires stack with ⟨after, replaced, boxes⟩
    exact .inl ⟨slot, after, (bind_ok (made.trans ended)).trans (bind_ok replaced), boxes⟩
  · exact .inr ⟨capacity, after, bind_error (made.trans refused)⟩

/-- Reading an element after its receiver was found and its part remembered. -/
theorem elementAt_reads {owner : HeapObject} {format : ClassFormat} {chars : Bool}
    {index selector : Value} (receiver : operand 1 found = .ok part.object found)
    (indexed : operand 0 found = .ok index found)
    (here : found.heap.get? part.object = some owner)
    (described : found.heap.classFormat owner.species = .ok format)
    (same : IndexedPart.ofBody? part.object format chars owner.body = some part)
    (inside : place? index part.size = some place)
    (fetched : found.heap.fetch found.registers.specials.specialSelectors
      (CommonMessage.atIndex.index * 2) = .ok selector) :
    ∃ after : Machine, after.Alike found ∧
      elementAt chars 1 found = (do succeed 1 (← readElement part place)) after := by
  rcases remembering_apply here fetched .read (do succeed 1 (← readElement part place)) with
    ⟨after, alike, remembered⟩
  refine ⟨after, alike, ?_⟩
  rw [← remembered]
  refine (bind_ok receiver).trans ((bind_ok (indexedPart_described here described same)).trans
    ((bind_ok indexed).trans ?_))
  rw [inside]

/-- The number of a large word is put on the stack by the instruction and by the full send
alike. -/
theorem access_boxes (remembers : machine.Remembers machine) {selector : Value}
    (asks : machine.Asks .read selector) (reads : machine.ReadsLargeWord word) (depth : Nat) :
    (execute (sendToClass (depth + 1)) Access.read.opcode).BoxesIn machine machine
        (wordNumber machine.registers.specials word) () ∧
      (sendSpecial (sendToClass (depth + 1)) Access.read.message.index).BoxesIn machine machine
        (wordNumber machine.registers.specials word) () := by
  rcases reads with ⟨part, index, place, asked, recalled, indexed, inside, words, read, large⟩
  change operand Access.read.count machine = .ok part.object machine at asked
  rcases Machine.recalled_eq_some recalled with ⟨member, -⟩
  rcases remembers.parts .read part member selector asks.1 with ⟨owner, here, vouches⟩
  rcases vouches.described with ⟨format, described, same⟩
  rcases stack_of_operands asked indexed with ⟨value, stack⟩
  have boxes {found : Machine} (alike : found.Alike machine) :=
    readElement_boxes alike remembers.consistent stack words read large
  constructor
  · rw [execute_access]
    have performed : inlineCommon Access.read.message machine
        = (do succeed 1 (← readElement part place)) machine := by
      refine (inline_recalled asked recalled).trans ((bind_ok indexed).trans ?_)
      rw [inside]
    exact ((boxes (.refl machine)).of_eq performed).bind fun _ => rfl
  · rcases sendSpecial_replies remembers asks asked recalled depth with
      ⟨found, number, alike, count, known, sent⟩
    have fetched := asks.1.2
    rw [← alike.heap] at here described fetched
    rw [← alike.specials] at fetched
    rcases elementAt_reads (Blind.operand_reads alike asked) (Blind.operand_reads alike indexed)
      here described same inside fetched with ⟨last, later, replied⟩
    have responds := @respond_apply found number _ (sendToClass depth) known
    rw [count] at responds
    have answered : (respond (sendToClass depth) number).BoxesIn machine found
        (wordNumber machine.registers.specials word) true := by
      refine .of_eq ?_ responds
      exact ((boxes (later.trans alike)).of_eq replied).bind fun _ => rfl
    refine .of_eq ?_ sent
    exact answered.bind fun _ => rfl

end Run

end Smalltalk

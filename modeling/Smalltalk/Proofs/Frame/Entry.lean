import Smalltalk.Machine.Activation
import Smalltalk.Proofs.Frame.Provision
import Smalltalk.Proofs.Frame.Saved

namespace Smalltalk

/-! A message enters its method: the frame takes the receiver and the arguments
over, the sender is left waiting below them. -/

namespace Heap

/-- Only one object was written, and it has as many values as before. -/
structure Rewrites (object : Value) (before after : Heap) : Prop where
  others : ∀ other, other ≠ object → after.get? other = before.get? other
  size : (after.pointers object).map Array.size = (before.pointers object).map Array.size
  species : (after.get? object).map HeapObject.species
    = (before.get? object).map HeapObject.species

/-- One field of one object was written. -/
structure Wrote (object : Value) (index : Nat) (value : Value) (before after : Heap) : Prop
    extends Rewrites object before after where
  written : after.fetch object index = .ok value
  elsewhere : ∀ place, place ≠ index → after.fetch object place = before.fetch object place

namespace Rewrites

variable {object : Value} {before middle after : Heap}

theorem refl : Rewrites object before before := ⟨fun _ _ => rfl, rfl, rfl⟩

theorem trans (early : Rewrites object before middle) (late : Rewrites object middle after) :
    Rewrites object before after where
  others other different := (late.others other different).trans (early.others other different)
  size := late.size.trans early.size
  species := late.species.trans early.species

theorem readable (rewrites : Rewrites object before after) {fields : Array Value}
    (readable : before.pointers object = .ok fields) :
    ∃ later, after.pointers object = .ok later ∧ later.size = fields.size := by
  have size := rewrites.size
  rw [readable] at size
  cases known : after.pointers object with
  | error error => simp [known, Except.map] at size
  | ok later =>
    simp only [known, Except.map, Except.ok.injEq] at size
    exact ⟨later, rfl, size⟩

theorem setField (heap : Heap) (object : Value) (index : Nat) (value : Value) :
    Rewrites object heap (heap.setField object index value) where
  others _ different := get?_update_other _ different.symm _
  size := size_setField ..
  species := by
    have written := heap.get?_update_same object fun object => { object with
      body := object.body.mapPointers (·.setIfInBounds index value) }
    rw [Heap.setField, updateBody, written, Option.map_map]
    rfl

end Rewrites

/-- The frame of a method as a message leaves it: the context of the sender below it,
the counters at the start of the method, the receiver and the arguments in front and
nil behind them. -/
structure NewFrame (before after : Heap) (caller callee method nil : Value)
    (header : MethodHeader) (top count size : Nat) : Prop where
  extent : (after.pointers callee).map Array.size = .ok (ContextField.frame + size)
  sender : after.fetch callee ContextField.sender = .ok caller
  start : after.fetchInt callee ContextField.pc = .ok header.firstPc
  depth : after.fetchInt callee ContextField.stackPointer = .ok header.temporaryCount
  runs : after.fetch callee ContextField.method = .ok method
  operands : ∀ place ≤ count, after.fetch callee (ContextField.receiver + place)
    = before.fetch caller (top - (count - place))
  vacant : ∀ index, ContextField.receiver + count < index → index < ContextField.frame + size →
    after.fetch callee index = .ok nil

theorem NewFrame.transfer {before fresh filled after : Heap} {caller callee method nil : Value}
    {header : MethodHeader} {top count size : Nat}
    (frame : fresh.NewFrame filled caller callee method nil header top count size)
    (sameCaller : fresh.get? caller = before.get? caller)
    (sameCallee : after.get? callee = filled.get? callee) :
    before.NewFrame after caller callee method nil header top count size where
  extent := (congrArg _ (pointers_congr sameCallee)).trans frame.extent
  sender := (fetch_congr sameCallee _).trans frame.sender
  start := (fetchInt_congr sameCallee _).trans frame.start
  depth := (fetchInt_congr sameCallee _).trans frame.depth
  runs := (fetch_congr sameCallee _).trans frame.runs
  operands place within := by
    rw [fetch_congr sameCallee, frame.operands place within, fetch_congr sameCaller]
  vacant index behind inside := (fetch_congr sameCallee _).trans (frame.vacant index behind inside)

theorem isObject_of_methodHeader? {heap : Heap} {method : Value} {header : MethodHeader}
    (known : heap.methodHeader? method = .ok (some header)) :
    ∃ slot, method = .object slot := by
  cases method with
  | small n => cases known
  | object slot => exact ⟨slot, rfl⟩

/-- A new frame waits at the start of its method. -/
theorem NewFrame.waits {before after : Heap} {caller callee method nil receiver : Value}
    {header : MethodHeader} {top count size : Nat}
    (frame : before.NewFrame after caller callee method nil header top count size)
    (known : after.methodHeader? method = .ok (some header))
    (received : before.fetch caller (top - count) = .ok receiver) :
    after.Waits callee callee method receiver 0
      (ContextField.frame - 1 + header.temporaryCount) where
  homeOf := by
    rcases isObject_of_methodHeader? known with ⟨slot, rfl⟩
    exact ⟨_, frame.runs, rfl⟩
  runs := frame.runs
  receives := (frame.operands 0 (Nat.zero_le _)).trans received
  next := by
    have zero : ((0 : Nat) : Int) + header.firstPc = header.firstPc := by omega
    exact ⟨header, known, frame.start.trans (congrArg _ zero.symm)⟩
  depth := by
    rw [frame.depth]
    congr 1
    omega

end Heap

namespace MethodHeader

theorem firstPc_bounds (header : MethodHeader) : 0 ≤ header.firstPc ∧ header.firstPc ≤ 1025 := by
  simp only [firstPc, literalCount]
  omega

theorem temporaryCount_lt (header : MethodHeader) : header.temporaryCount < 64 := by
  simp only [temporaryCount]
  omega

end MethodHeader

namespace Run

variable {machine : Machine}

theorem store_wrote (object : Value) (index : Nat) (value : Value) :
    (store object index value).Ensures machine fun _ after => ∃ heap,
      after = machine.withHeap heap ∧ machine.heap.Wrote object index value heap := by
  refine (ensures_store machine object index value).mono ?_
  intro _ _ ended
  rcases ended with ⟨written, rfl⟩
  refine ⟨_, rfl, .setField .., written, fun place different => ?_⟩
  exact Heap.fetch_setField_other (.inr different.symm)

/-- Operands are copied in their order, the deepest first. -/
theorem copyOperands_fills {target : Value} (apart : machine.registers.activeContext ≠ target)
    (count index : Nat) :
    (copyOperands target count index).Ensures machine fun _ after => ∃ heap,
      after = machine.withHeap heap ∧ machine.heap.Rewrites target heap ∧
      (∀ place < count, heap.fetch target (index + place)
        = machine.heap.fetch machine.registers.activeContext
            (machine.registers.sp - (count - 1 - place))) ∧
      ∀ place, place < index ∨ index + count ≤ place →
        heap.fetch target place = machine.heap.fetch target place := by
  induction count generalizing machine index with
  | zero =>
    refine .pure ⟨machine.heap, rfl, .refl, fun place few => ?_, fun _ _ => rfl⟩
    cases few
  | succ count induction =>
    refine (ensures_operand machine count).bindTo fun value read => ?_
    refine (store_wrote target index value).bind ?_
    rintro _ _ ⟨first, rfl, wrote⟩
    refine (@induction (machine.withHeap first) apart (index + 1)).mono ?_
    rintro _ _ ⟨heap, rfl, rewrites, operands, rest⟩
    refine ⟨heap, rfl, wrote.toRewrites.trans rewrites, ?_, ?_⟩
    · intro place few
      cases place with
      | zero =>
        have deepest : count + 1 - 1 - 0 = count := by omega
        rw [deepest, read]
        exact (rest index (.inl (by omega))).trans wrote.written
      | succ place =>
        have next := operands place (by omega)
        rw [Nat.add_right_comm, Nat.add_assoc] at next
        have depth : count + 1 - 1 - (place + 1) = count - 1 - place := by omega
        rw [next, depth]
        exact Heap.fetch_congr (wrote.others _ apart) _
    · intro place outside
      rw [rest place (by omega)]
      exact wrote.elsewhere place (by omega)

/-! ## The parts of an activation -/

/-- Fill a blank context for a message. -/
def fillFrame (context method : Value) (header : MethodHeader) (registers : Registers) :
    Run Unit := do
  store context ContextField.sender registers.activeContext
  store context ContextField.pc (← encodePc method 0)
  store context ContextField.stackPointer (.ofInt header.temporaryCount)
  store context ContextField.method method
  copyOperands context (registers.argumentCount + 1) ContextField.receiver

/-- Make a context for the method found and make it the active one, without looking
for interrupts. -/
def enter : Run Unit := do
  let registers ← getRegisters
  let method := registers.newMethod
  let header ← methodHeader method
  let context ← newContext header.needsLargeFrame
  let registers ← getRegisters
  fillFrame context method header registers
  drop (registers.argumentCount + 1)
  modifyRegisters fun registers => { registers with reclaimable := registers.reclaimable + 1 }
  activate context

theorem activateMethod_eq : activateMethod = enter >>= fun _ => checkInterrupts := by
  simp only [activateMethod, enter, fillFrame, bind_assoc]

/-- A blank context is filled completely. -/
theorem fillFrame_fills {callee method nil : Value} {header : MethodHeader} {size : Nat}
    (known : machine.heap.methodHeader? method = .ok (some header))
    (blank : machine.heap.pointers callee
      = .ok (Array.replicate (ContextField.frame + size) nil))
    (apart : machine.registers.activeContext ≠ callee) (other : method ≠ callee) :
    (fillFrame callee method header machine.registers).Ensures machine fun _ after =>
      ∃ heap, after = machine.withHeap heap ∧ machine.heap.Rewrites callee heap ∧
        machine.heap.NewFrame heap machine.registers.activeContext callee method nil header
          machine.registers.sp machine.registers.argumentCount size := by
  refine (store_wrote _ _ _).bind ?_
  rintro _ _ ⟨first, rfl, sender⟩
  have remains : (machine.withHeap first).heap.methodHeader? method = .ok (some header) :=
    (Heap.methodHeader?_congr (sender.others method other)).trans known
  refine .bindOk (encodePc_ok remains 0) ?_
  refine (store_wrote _ _ _).bind ?_
  rintro _ _ ⟨second, rfl, start⟩
  refine (store_wrote _ _ _).bind ?_
  rintro _ _ ⟨third, rfl, depth⟩
  refine (store_wrote _ _ _).bind ?_
  rintro _ _ ⟨fourth, rfl, runs⟩
  simp only [Machine.withHeap_withHeap, Machine.heap_withHeap] at start depth runs ⊢
  refine (@copyOperands_fills (machine.withHeap fourth) _ apart _ _).mono ?_
  rintro _ _ ⟨heap, rfl, rewrites, operands, rest⟩
  have early := ((sender.toRewrites.trans start.toRewrites).trans depth.toRewrites).trans
    runs.toRewrites
  refine ⟨heap, rfl, early.trans rewrites, ?_⟩
  have bounds := header.firstPc_bounds
  have few := header.temporaryCount_lt
  have front {index : Nat} (early : index < ContextField.receiver) := rest index (.inl early)
  refine
    { extent := ?_
      sender := ?_
      start := ?_
      depth := ?_
      runs := (front (by decide)).trans runs.written
      operands := ?_
      vacant := ?_ }
  · rw [rewrites.size, Machine.heap_withHeap, early.size, blank]
    simp [Except.map]
  · rw [front (by decide), Machine.heap_withHeap, runs.elsewhere _ (by decide),
      depth.elsewhere _ (by decide), start.elsewhere _ (by decide), sender.written]
  · refine @Heap.fetchInt_of_fetch _ _ _ (.ofWrapped ((0 : Nat) + header.firstPc)) _ ?_ ?_
    · rw [front (by decide), Machine.heap_withHeap, runs.elsewhere _ (by decide),
        depth.elsewhere _ (by decide), start.written]
    · have zero : ((0 : Nat) : Int) + header.firstPc = header.firstPc := by omega
      rw [zero]
      apply Value.int?_ofWrapped <;> simp only [SmallInt.minimum, SmallInt.maximum] <;> omega
  · refine @Heap.fetchInt_of_fetch _ _ _ (.ofInt header.temporaryCount) _ ?_ ?_
    · rw [front (by decide), Machine.heap_withHeap, runs.elsewhere _ (by decide), depth.written]
    · apply Value.int?_ofInt <;> simp only [SmallInt.minimum, SmallInt.maximum] <;> omega
  · intro place within
    rw [operands place (by omega)]
    exact Heap.fetch_congr (early.others _ apart) _
  · intro index behind inside
    simp only [ContextField.receiver] at behind rest
    rw [rest index (.inr (by omega)), Machine.heap_withHeap,
      runs.elsewhere _ (by simp only [ContextField.method]; omega),
      depth.elsewhere _ (by simp only [ContextField.stackPointer]; omega),
      start.elsewhere _ (by simp only [ContextField.pc]; omega),
      sender.elsewhere _ (by simp only [ContextField.sender]; omega)]
    exact Heap.fetch_eq_ok_iff.mpr ⟨_, blank, by simp [inside]⟩

end Run

/-- The contexts and methods that an activation works with. -/
def Registers.standing (registers : Registers) : List Value :=
  [registers.activeContext, registers.homeContext, registers.method, registers.newMethod]

namespace Machine

/-- Whether the free contexts are frames of their sizes that the active context and
its home do without. -/
structure Spares (machine : Machine) : Prop where
  frames : ∀ large, ∀ context ∈ machine.registers.freeOf large,
    machine.HasFrame (machine.config.frameSize large) context
  unused : ∀ large, ∀ context ∈ machine.registers.freeOf large,
    context ≠ machine.registers.activeContext ∧ context ≠ machine.registers.homeContext

/-- What a machine becomes when it enters the method found for a message. -/
structure Entered (machine : Machine) (header : MethodHeader) (callee : Value)
    (after : Machine) : Prop where
  frame : machine.heap.NewFrame after.heap machine.registers.activeContext callee
    machine.registers.newMethod machine.registers.specials.nil header machine.registers.sp
    machine.registers.argumentCount (machine.config.frameSize header.needsLargeFrame)
  species : (after.heap.get? callee).map HeapObject.species
    = some machine.registers.specials.methodContextClass
  apart : ∀ value ∈ machine.registers.forget.values, (machine.heap.get? value).isSome →
    value ∉ machine.registers.freeOf header.needsLargeFrame → value ≠ callee
  received : machine.heap.fetch machine.registers.activeContext
    (machine.registers.sp - machine.registers.argumentCount) = .ok after.registers.receiver
  registers : after.registers.forget = { machine.registers with
    activeContext := callee
    homeContext := callee
    method := machine.registers.newMethod
    receiver := after.registers.receiver
    pc := 0
    sp := ContextField.frame - 1 + header.temporaryCount
    reclaimable := machine.registers.reclaimable + 1 }.forget
  waits : after.heap.Waits machine.registers.activeContext machine.registers.homeContext
    machine.registers.method machine.registers.receiver machine.registers.pc
    (machine.registers.sp - (machine.registers.argumentCount + 1))
  elsewhere : ∀ index, index ≠ ContextField.pc → index ≠ ContextField.stackPointer →
    after.heap.fetch machine.registers.activeContext index
      = machine.heap.fetch machine.registers.activeContext index
  extent : (after.heap.pointers machine.registers.activeContext).map Array.size
    = (machine.heap.pointers machine.registers.activeContext).map Array.size
  config : after.config = machine.config

end Machine

namespace Run

variable {machine : Machine}

theorem isSome_of_methodHeader? {method : Value} {header : MethodHeader}
    (known : machine.heap.methodHeader? method = .ok (some header)) :
    (machine.heap.get? method).isSome := by
  rcases bind_eq_ok_iff.mp known with ⟨object, found, -⟩
  simp [Heap.object_eq_ok_iff.mp found]

/-- A method is no frame. -/
theorem not_hasFrame_of_methodHeader? {method : Value} {header : MethodHeader} {size : Nat}
    (known : machine.heap.methodHeader? method = .ok (some header)) :
    ¬ machine.HasFrame size method := by
  rintro ⟨object, fields, found, -, body, -⟩
  rw [Heap.methodHeader?, Heap.object_eq_ok_iff.mpr found] at known
  simp [bind, Except.bind, pure, Except.pure, HeapObject.methodHeader?, body] at known

/-- Contexts and methods at work are objects, and none of them is a free context. -/
theorem standing_spared (agrees : machine.Agrees) {header : MethodHeader}
    (known : machine.heap.methodHeader? machine.registers.newMethod = .ok (some header))
    (spares : machine.Spares) {value : Value} (member : value ∈ machine.registers.standing) :
    value ∈ machine.registers.forget.values ∧ (machine.heap.get? value).isSome ∧
      ∀ large, value ∉ machine.registers.freeOf large := by
  refine ⟨?_, ?_, ?_⟩
  · simp only [Registers.standing, List.mem_cons, List.not_mem_nil, or_false] at member
    rw [Registers.values_forget]
    simp only [List.mem_append, List.mem_cons]
    tauto
  · have fetched {object found : Value} {index : Nat}
        (read : machine.heap.fetch object index = .ok found) :
        (machine.heap.get? object).isSome := by
      rcases Heap.mem_references_of_fetch read with ⟨owner, here, -⟩
      simp [here]
    simp only [Registers.standing, List.mem_cons, List.not_mem_nil, or_false] at member
    rcases member with rfl | rfl | rfl | rfl
    · rcases agrees.homeOf with ⟨_, read, -⟩
      exact fetched read
    · exact fetched agrees.runs
    · rcases agrees.next with ⟨_, running, -⟩
      exact isSome_of_methodHeader? running
    · exact isSome_of_methodHeader? known
  · intro large free
    simp only [Registers.standing, List.mem_cons, List.not_mem_nil, or_false] at member
    rcases member with rfl | rfl | rfl | rfl
    · exact (spares.unused large _ free).1 rfl
    · exact (spares.unused large _ free).2 rfl
    · rcases agrees.next with ⟨_, running, -⟩
      exact not_hasFrame_of_methodHeader? running (spares.frames large _ free)
    · exact not_hasFrame_of_methodHeader? known (spares.frames large _ free)

/-- Entering a method gives it a frame of its own and leaves the sender waiting. -/
theorem enter_enters (consistent : machine.heap.Consistent) (agrees : machine.Agrees)
    (spares : machine.Spares) :
    enter.Ensures machine fun _ after => ∃ header callee,
      machine.heap.methodHeader? machine.registers.newMethod = .ok (some header) ∧
        machine.Entered header callee after := by
  refine (ensures_getRegisters machine).bindExactly ?_
  refine (methodHeader_knows _).bindTo fun header known => ?_
  refine (newContext_provides consistent _ (spares.frames _)).bind fun callee fresh provides => ?_
  refine (ensures_getRegisters fresh).bindExactly ?_
  rcases Registers.frame_of_forget provides.registers with
    ⟨active, home, method, receiver, pc, sp, count⟩
  have apart {value : Value} (member : value ∈ machine.registers.standing) : value ≠ callee := by
    rcases standing_spared agrees known spares member with ⟨root, live, unused⟩
    exact provides.apart value root live (unused _)
  have same {value : Value} (member : value ∈ machine.registers.standing) :
      fresh.heap.get? value = machine.heap.get? value :=
    provides.others value (standing_spared agrees known spares member).1 (apart member)
  have contextStands : machine.registers.activeContext ∈ machine.registers.standing := by
    simp [Registers.standing]
  have methodStands : machine.registers.newMethod ∈ machine.registers.standing := by
    simp [Registers.standing]
  have knownHere : fresh.heap.methodHeader? machine.registers.newMethod = .ok (some header) :=
    (Heap.methodHeader?_congr (same methodStands)).trans known
  refine (fillFrame_fills knownHere provides.blank (active ▸ apart contextStands)
    (apart methodStands)).bind ?_
  rintro _ _ ⟨filled, rfl, rewrites, frame⟩
  refine (ensures_drop _ _).bindChange fun _ => ?_
  refine (ensures_modifyRegisters _ _).bindChange fun _ => ?_
  have kept {value : Value} (member : value ∈ machine.registers.standing) :
      filled.get? value = machine.heap.get? value :=
    (rewrites.others value (apart member)).trans (same member)
  let leaving : Machine := { fresh with
    heap := filled
    registers := { fresh.registers with
      sp := fresh.registers.sp - (fresh.registers.argumentCount + 1)
      reclaimable := fresh.registers.reclaimable + 1 } }
  change (activate callee).Ensures leaving _
  have leavingAgrees : leaving.Agrees := by
    refine agrees.transfer active home method receiver pc ?_ ?_
    · exact (Nat.sub_le _ _).trans (le_of_eq sp)
    · intro value member
      refine kept ?_
      simp only [Registers.standing, List.mem_cons, List.not_mem_nil, or_false] at member ⊢
      tauto
  refine (saveContext_waits leavingAgrees).bind ?_
  rintro _ _ ⟨savedPc, savedDepth, rfl, waits⟩
  simp only [leaving, active, home, method, receiver, pc, sp, count] at waits frame ⊢
  generalize stored : filled.withCounters machine.registers.activeContext savedPc savedDepth
    = saved at waits ⊢
  have sameCallee : saved.get? callee = filled.get? callee :=
    stored ▸ Heap.get?_withCounters (apart contextStands).symm
  have frameHere := frame.transfer (same contextStands) sameCallee
  have readable : ∃ received, machine.heap.fetch machine.registers.activeContext
      (machine.registers.sp - machine.registers.argumentCount) = .ok received := by
    rcases agrees.inside with ⟨fields, here, below⟩
    have inside : machine.registers.sp - machine.registers.argumentCount < fields.size := by omega
    exact ⟨_, Heap.fetch_eq_ok_iff.mpr ⟨fields, here, Array.getElem?_eq_getElem inside⟩⟩
  rcases readable with ⟨received, read⟩
  have knownThere : saved.methodHeader? machine.registers.newMethod = .ok (some header) := by
    rw [← stored, Heap.methodHeader?_withCounters, Heap.methodHeader?_congr (kept methodStands)]
    exact known
  have calleeWaits := frameHere.waits knownThere read
  intro _ after ended
  rw [loadContext_of_waits calleeWaits] at ended
  cases ended
  refine ⟨header, callee, known,
    { frame := frameHere
      species := ?_
      apart := provides.apart
      received := read
      registers := ?_
      waits
      elsewhere := ?_
      extent := ?_
      config := provides.config }⟩
  · rw [sameCallee, rewrites.species, provides.species]
  · have forgotten := provides.registers
    simp only [Registers.forget, Registers.mk.injEq] at forgotten ⊢
    tauto
  · intro index notPc notDepth
    rw [← stored, Heap.fetch_withCounters notPc notDepth, Heap.fetch_congr (kept contextStands)]
  · rw [← stored, Heap.size_withCounters, Heap.pointers_congr (kept contextStands)]

end Run

end Smalltalk

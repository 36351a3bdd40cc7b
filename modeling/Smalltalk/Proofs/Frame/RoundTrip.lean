import Smalltalk.Machine.Send
import Smalltalk.Proofs.Frame.Return
import Smalltalk.Proofs.Machine.References

namespace Smalltalk

/-! A message whose method is no primitive, and the return from it: the method finds
its receiver and its arguments in a frame of its own, and the sender goes on where it
was, with the answer in place of what it sent. -/

namespace Run

variable {α : Type} {machine after : Machine}

/-! ## Lookups -/

/-- Resolving a message sets the registers for its method and primitive as well. -/
theorem resolveMessage_resolves (species : Value) :
    (resolveMessage species).Ensures machine fun answered after => answered = true →
      ∃ method primitive methodCache, after = { machine with registers := { machine.registers with
        newMethod := method, primitiveIndex := primitive, methodCache } } := by
  refine (ensures_getRegisters machine).bindExactly ?_
  refine (lookupMethod_cacheApart _ species machine ⟨_, rfl⟩).bind ?_
  rintro found _ ⟨⟨methodCache, rfl⟩, -⟩
  cases found with
  | none =>
    refine .pure fun absurd => ?_
    cases absurd
  | some entry =>
    refine (ensures_modifyRegisters _ _).bindChange fun _ => ?_
    exact .pure fun _ => ⟨_, _, _, rfl⟩

/-! ## Activations during which nothing is signalled -/

/-- Look for interrupts with a way to signal semaphores. -/
def checkInterruptsBy (signal : Value → Run Unit) : Run Unit := do
  let signalSpecial (index : Nat) : Run Unit := do
    let semaphore ← specialObject index
    if semaphore ≠ (← getNil) then signal semaphore
  let counter := (← get).timing.counter
  modify fun machine => { machine with timing.counter := counter - 1 }
  if counter ≤ 0 then
    let now ← millisecondClock
    tick now
    if ← takeInterrupt then signalSpecial Special.interruptSemaphore
    if ← takeWakeup now then signalSpecial Special.timerSemaphore

/-- Activate a method with a way to signal semaphores. -/
def activateMethodBy (signal : Value → Run Unit) : Run Unit := do
  enter
  checkInterruptsBy signal

theorem activateMethodBy_signal : activateMethodBy signal = activateMethod :=
  activateMethod_eq.symm

/-- An activation comes to its end without signalling a semaphore: however semaphores
were signalled, it would be the same. -/
def ActivatesQuietly (machine after : Machine) : Prop :=
  ∀ signal, activateMethodBy signal machine = .ok () after

/-- Nothing is signalled while the countdown is running. -/
theorem ActivatesQuietly.of_counting {entered : Machine}
    (ended : enter machine = .ok () entered) (counting : 0 < entered.timing.counter) :
    ActivatesQuietly machine
      { entered with timing.counter := entered.timing.counter - 1 } := by
  intro signal
  rw [activateMethodBy, bind_ok ended, checkInterruptsBy, bind_ok get_apply]
  refine (bind_ok (modify_apply _)).trans ?_
  rw [if_neg (by omega)]
  rfl

/-- If signals would stop the machine, looking for interrupts leaves the heap and the
registers alone. -/
theorem checkInterruptsBy_throw (stop : Stop) :
    (checkInterruptsBy fun _ => throw stop).Ensures machine fun _ after =>
      after.heap = machine.heap ∧ after.registers = machine.registers := by
  let same (later : Machine) : Prop :=
    later.heap = machine.heap ∧ later.registers = machine.registers
  have signalled (index : Nat) : Maintains same (do
      let semaphore ← specialObject index
      if semaphore ≠ (← getNil) then throw stop) fun _ => True := by
    refine (maintains_getRegisters.bind fun _ _ => maintains_readHeap).bind fun _ _ => ?_
    exact maintains_getNil.bind fun _ _ => .ite (fun _ => .throw) fun _ => .pure trivial
  have maintains : Maintains same (checkInterruptsBy fun _ => throw stop) fun _ => True := by
    refine maintains_get.bind fun before _ => ?_
    refine .bind (maintains_modify fun _ holds => holds) fun _ _ => ?_
    refine .ite (fun _ => ?_) fun _ => .pure trivial
    have clock : Maintains same millisecondClock fun _ => True :=
      maintains_get.bind fun _ _ => .pure trivial
    refine clock.bind fun now _ => ?_
    refine .bind (maintains_modify fun _ holds => holds) fun _ _ => ?_
    refine .bind (maintains_modifyGet fun _ holds => holds) fun interrupted _ => ?_
    have wakeup : Maintains same (do
        if ← takeWakeup now then
          let semaphore ← specialObject Special.timerSemaphore
          if semaphore ≠ (← getNil) then throw stop) fun _ => True := by
      refine .bind (maintains_modifyGet fun _ holds => holds) fun expired _ => ?_
      exact .ite (fun _ => signalled _) fun _ => .pure trivial
    exact .ite (fun _ => (signalled _).bind fun _ _ => wakeup) fun _ => wakeup
  exact (maintains machine ⟨rfl, rfl⟩).mono fun _ _ ended => ended.1

/-- A quiet activation is what entering the method leaves, as far as the heap and the
registers go. -/
theorem ActivatesQuietly.enters (quiet : ActivatesQuietly machine after) :
    ∃ entered, enter machine = .ok () entered ∧ after.heap = entered.heap ∧
      after.registers = entered.registers := by
  have stopped := quiet fun _ => throw .undefinedOperand
  rw [activateMethodBy] at stopped
  cases ended : enter machine with
  | error stop state =>
    rw [bind_error ended] at stopped
    cases stopped
  | ok result entered =>
    rw [bind_ok ended] at stopped
    rcases checkInterruptsBy_throw _ _ _ stopped with ⟨heap, registers⟩
    exact ⟨entered, rfl, heap, registers⟩

end Run

namespace Machine

variable {machine after : Machine}

/-! ## Sending and returning -/

/-- The method of a message runs in a frame of its own. -/
structure Starts (machine : Machine) (count : Nat) (method : Value) (header : MethodHeader)
    (callee : Value) (after : Machine) : Prop where
  frame : machine.heap.NewFrame after.heap machine.registers.activeContext callee method
    machine.registers.specials.nil header machine.registers.sp count
    (machine.config.frameSize header.needsLargeFrame)
  species : (after.heap.get? callee).map HeapObject.species
    = some machine.registers.specials.methodContextClass
  active : after.registers.activeContext = callee
  atHome : after.registers.homeContext = callee
  runs : after.registers.method = method
  receives : machine.heap.fetch machine.registers.activeContext (machine.registers.sp - count)
    = .ok after.registers.receiver
  next : after.registers.pc = 0
  depth : after.registers.sp = ContextField.frame - 1 + header.temporaryCount

/-- Later the method is about to return to its sender. What it did in between has left
the waiting context, its home and its method alone. -/
structure LeavesWaiting (machine after : Machine) (callee : Value) (later : Machine) : Prop where
  active : later.registers.activeContext = callee
  nil : later.registers.specials.nil = after.registers.specials.nil
  sender : later.heap.fetch callee ContextField.sender = .ok machine.registers.activeContext
  extent : (later.heap.pointers callee).map Array.size
    = (after.heap.pointers callee).map Array.size
  same : ∀ value ∈ [machine.registers.activeContext, machine.registers.homeContext,
    machine.registers.method], later.heap.get? value = after.heap.get? value

/-- The machine goes on behind a message, with the answer in place of the receiver and
the arguments. -/
structure GoesOn (machine : Machine) (count : Nat) (answer : Value) (after : Machine) :
    Prop where
  active : after.registers.activeContext = machine.registers.activeContext
  atHome : after.registers.homeContext = machine.registers.homeContext
  runs : after.registers.method = machine.registers.method
  receives : after.registers.receiver = machine.registers.receiver
  next : after.registers.pc = machine.registers.pc
  depth : after.registers.sp = machine.registers.sp - count
  top : after.heap.fetch machine.registers.activeContext (machine.registers.sp - count)
    = .ok answer
  slots : ∀ index, index ≠ ContextField.pc → index ≠ ContextField.stackPointer →
    index ≠ machine.registers.sp - count →
      after.heap.fetch machine.registers.activeContext index
        = machine.heap.fetch machine.registers.activeContext index

/-- Whether nil is an object that is no context in use or free. -/
structure KeepsNil (machine : Machine) : Prop where
  isObject : machine.registers.specials.nil.isSmall = false
  live : machine.heap.Holds machine.registers.specials.nil
  notActive : machine.registers.specials.nil ≠ machine.registers.activeContext
  notFree : ∀ large, machine.registers.specials.nil ∉ machine.registers.freeOf large

theorem sendToClass_of_found {depth : Nat} {selector species : Value} {count : Nat}
    {resolved : Machine}
    (found : Run.resolveMessage species (machine.sending selector count species)
      = .ok true resolved)
    (nonPrimitive : resolved.registers.primitiveIndex = 0)
    (activated : Run.activateMethod resolved = .ok () after) :
    Run.sendToClass (depth + 1) selector count species machine = .ok () after := by
  have start : (Run.modifyRegisters fun registers => { registers with
      messageSelector := selector, argumentCount := count, lookupClass := species }) machine
        = .ok () (machine.sending selector count species) := rfl
  have method : Run.findMethodBy Run.resolveMessage species
      (machine.sending selector count species) = .ok () resolved := by
    rw [Run.findMethodBy, Run.bind_ok found]
    rfl
  rw [Run.sendToClass]
  refine (Run.bind_ok start).trans ((Run.bind_ok method).trans ?_)
  refine (Run.bind_ok Run.getRegisters_apply).trans ?_
  simp only [nonPrimitive]
  exact activated

/-- What is left waiting is apart from the new frame. -/
theorem Entered.waiting_apart {entered : Machine} {header : MethodHeader} {callee : Value}
    (started : machine.Entered header callee entered) (agrees : machine.Agrees)
    (spares : machine.Spares)
    (known : machine.heap.methodHeader? machine.registers.newMethod = .ok (some header)) :
    ∀ value ∈ [machine.registers.activeContext, machine.registers.homeContext,
      machine.registers.method], value ≠ callee := by
  intro value member
  have stands : value ∈ machine.registers.standing := by
    simp only [Registers.standing, List.mem_cons, List.not_mem_nil, or_false] at member ⊢
    tauto
  rcases Run.standing_spared agrees known spares stands with ⟨root, live, unused⟩
  exact started.apart value root live (unused _)

/-- The frame that was left waiting can be returned to. -/
theorem Entered.answerable {entered later : Machine} {header : MethodHeader} {callee : Value}
    (started : machine.Entered header callee entered)
    (apart : ∀ value ∈ [machine.registers.activeContext, machine.registers.homeContext,
      machine.registers.method], value ≠ callee)
    (leaves : machine.LeavesWaiting entered callee later) :
    later.Answerable machine.registers.activeContext machine.registers.homeContext
      machine.registers.method machine.registers.receiver machine.registers.pc
      (machine.registers.sp - (machine.registers.argumentCount + 1)) where
  sender := leaves.active ▸ leaves.sender
  waits := started.waits.transfer (leaves.same _ (by simp)) (leaves.same _ (by simp))
    (leaves.same _ (by simp))
  apart value member := leaves.active ▸ apart value member

theorem Entered.starts {entered : Machine} {header : MethodHeader} {callee : Value}
    (started : machine.Entered header callee entered) (heap : after.heap = entered.heap)
    (registers : after.registers = entered.registers) :
    machine.Starts machine.registers.argumentCount machine.registers.newMethod header callee
      after := by
  rcases Registers.frame_of_forget started.registers with
    ⟨active, home, method, receiver, pc, sp, -⟩
  rw [← registers] at active home method receiver pc sp
  refine
    { frame := heap ▸ started.frame
      species := heap ▸ started.species
      active := active
      atHome := home
      runs := method
      receives := registers ▸ started.received
      next := pc
      depth := sp }

/-- A frame that waited below its operands and is resumed goes on behind the message. -/
theorem Resumed.goesOn {later final : Machine} {answer : Value} {count : Nat}
    (resumed : later.Resumed machine.registers.activeContext machine.registers.homeContext
      machine.registers.method machine.registers.receiver machine.registers.pc
      (machine.registers.sp - (count + 1)) answer final)
    (operands : ContextField.frame + count ≤ machine.registers.sp)
    (waiting : ∀ index, index ≠ ContextField.pc → index ≠ ContextField.stackPointer →
      later.heap.fetch machine.registers.activeContext index
        = machine.heap.fetch machine.registers.activeContext index) :
    machine.GoesOn count answer final := by
  have height : machine.registers.sp - (count + 1) + 1 = machine.registers.sp - count := by
    simp only [ContextField.frame] at operands
    omega
  exact
    { active := resumed.active
      atHome := resumed.atHome
      runs := resumed.runs
      receives := resumed.receives
      next := resumed.next
      depth := resumed.depth.trans height
      top := height ▸ resumed.top
      slots := fun index notPc notDepth notTop =>
        (resumed.elsewhere index (height ▸ notTop)).trans (waiting index notPc notDepth) }

/-- A return from a frame that was entered goes on where the sender was. -/
theorem Entered.goesOn {entered later final : Machine} {header : MethodHeader}
    {callee answer : Value} (started : machine.Entered header callee entered)
    (operands : ContextField.frame + machine.registers.argumentCount ≤ machine.registers.sp)
    (leaves : machine.LeavesWaiting entered callee later)
    (resumed : later.Resumed machine.registers.activeContext machine.registers.homeContext
      machine.registers.method machine.registers.receiver machine.registers.pc
      (machine.registers.sp - (machine.registers.argumentCount + 1)) answer final) :
    machine.GoesOn machine.registers.argumentCount answer final :=
  resumed.goesOn operands fun index notPc notDepth =>
    (Heap.fetch_congr (leaves.same _ (by simp)) index).trans
      (started.elsewhere index notPc notDepth)

/-- Where nil is no context, the return comes to its end. -/
theorem Entered.returnTo_ends {entered later : Machine} {header : MethodHeader}
    {callee : Value} (started : machine.Entered header callee entered)
    (agrees : machine.Agrees)
    (operands : ContextField.frame + machine.registers.argumentCount ≤ machine.registers.sp)
    (leaves : machine.LeavesWaiting entered callee later)
    (answerable : later.Answerable machine.registers.activeContext machine.registers.homeContext
      machine.registers.method machine.registers.receiver machine.registers.pc
      (machine.registers.sp - (machine.registers.argumentCount + 1)))
    (nil : machine.KeepsNil) (answer : Value) :
    (Run.returnTo answer machine.registers.activeContext).Ends later := by
  have sameNil : later.registers.specials.nil = machine.registers.specials.nil := by
    have specials := congrArg Registers.specials started.registers
    exact leaves.nil.trans (congrArg Specials.nil specials)
  have root : machine.registers.specials.nil ∈ machine.registers.forget.values := by
    rw [Registers.values_forget]
    simp [Specials.values]
  have live : (machine.heap.get? machine.registers.specials.nil).isSome := by
    have isObject := nil.isObject
    have held := nil.live
    cases known : machine.registers.specials.nil with
    | small n => simp [known, Value.isSmall] at isObject
    | object slot =>
      rw [known] at held
      exact held
  have notCallee := started.apart _ root live (nil.notFree _)
  have extent := leaves.extent.trans started.frame.extent
  rcases agrees.inside with ⟨waiting, readable, below⟩
  have size := started.extent
  rw [readable, ← Heap.pointers_congr (leaves.same _ (by simp))] at size
  cases left : later.heap.pointers callee with
  | error error => simp [left, Except.map] at extent
  | ok fields =>
    simp only [left, Except.map, Except.ok.injEq] at extent
    cases there : later.heap.pointers machine.registers.activeContext with
    | error error => simp [there, Except.map] at size
    | ok slots =>
      simp only [there, Except.map, Except.ok.injEq] at size
      refine Run.returnTo_ends answerable (sameNil ▸ nil.isObject) ?_ ?_
        (leaves.active ▸ left) ?_ there ?_ answer
      · rw [leaves.active, sameNil]
        exact notCallee.symm
      · rw [sameNil]
        exact nil.notActive.symm
      · simp only [ContextField.frame] at extent
        simp only [ContextField.pc]
        omega
      · simp only [ContextField.frame] at operands
        omega

/-- Activation and return are inverse. -/
theorem send_then_return {depth : Nat} {selector species : Value} {count : Nat}
    {resolved : Machine} (consistent : machine.heap.Consistent) (agrees : machine.Agrees)
    (spares : machine.Spares) (operands : ContextField.frame + count ≤ machine.registers.sp)
    (found : Run.resolveMessage species (machine.sending selector count species)
      = .ok true resolved)
    (nonPrimitive : resolved.registers.primitiveIndex = 0)
    (quiet : Run.ActivatesQuietly resolved after) :
    Run.sendToClass (depth + 1) selector count species machine = .ok () after ∧
      ∃ header callee,
        machine.heap.methodHeader? resolved.registers.newMethod = .ok (some header) ∧
        machine.Starts count resolved.registers.newMethod header callee after ∧
        machine.LeavesWaiting after callee after ∧
        ∀ later, machine.LeavesWaiting after callee later → ∀ answer,
          (Run.returnTo answer machine.registers.activeContext).Ensures later
            (fun _ final => machine.GoesOn count answer final) ∧
          (machine.KeepsNil →
            (Run.returnTo answer machine.registers.activeContext).Ends later) := by
  have activated := quiet Run.signal
  rw [Run.activateMethodBy_signal] at activated
  rcases Run.resolveMessage_resolves species true resolved found rfl with
    ⟨method, primitive, methodCache, same⟩
  rcases quiet.enters with ⟨entered, ended, heap, registers⟩
  have agreesThere : resolved.Agrees := by
    subst same
    exact agrees.transfer rfl rfl rfl rfl rfl (le_refl _) fun _ _ => rfl
  have sparesThere : resolved.Spares := by
    subst same
    exact ⟨spares.frames, spares.unused⟩
  have consistentThere : resolved.heap.Consistent := by
    subst same
    exact consistent
  rcases Run.enter_enters consistentThere agreesThere sparesThere () entered ended with
    ⟨header, callee, known, started⟩
  have apart := started.waiting_apart agreesThere sparesThere known
  have starts := started.starts heap registers
  have waiting {later : Machine} (leaves : machine.LeavesWaiting after callee later) :
      resolved.LeavesWaiting entered callee later := by
    subst same
    have ⟨active, nil, sender, extent, kept⟩ := leaves
    rw [heap] at extent kept
    rw [registers] at nil
    exact ⟨active, nil, sender, extent, kept⟩
  refine ⟨sendToClass_of_found found nonPrimitive activated, header, callee, ?_⟩
  subst same
  refine ⟨known, ⟨starts.frame, starts.species, starts.active, starts.atHome, starts.runs,
    starts.receives, starts.next, starts.depth⟩, ⟨starts.active, rfl, starts.frame.sender, rfl,
    fun _ _ => rfl⟩, ?_⟩
  intro later leaves answer
  have answerable := started.answerable apart (waiting leaves)
  constructor
  · refine (Run.returnTo_resumes answerable).mono fun _ final resumed => ?_
    have goesOn := started.goesOn operands (waiting leaves) resumed
    exact ⟨goesOn.active, goesOn.atHome, goesOn.runs, goesOn.receives, goesOn.next,
      goesOn.depth, goesOn.top, goesOn.slots⟩
  · intro nil
    exact started.returnTo_ends agreesThere operands (waiting leaves) answerable
      ⟨nil.isObject, nil.live, nil.notActive, nil.notFree⟩ answer

/-- The message of the machine with a full object table, for whose frame an object is
freed, and the return from it. -/
theorem send_then_return_tightMachine :
    let sent := { tightMachine.nth 1 with timing.counter := 1 }
    let after := (Run.sendToClass 1 (.object 4) 0 (.object 1)).left sent
    after.heap.counts.freed = 1 ∧
      ∃ final, Run.returnTo (.object 8) (.object 7) after = .ok () final ∧
        sent.GoesOn 0 (.object 8) final := by
  intro sent after
  let resolved := (Run.resolveMessage (.object 1)).left (sent.sending (.object 4) 0 (.object 1))
  let entered := Run.enter.left resolved
  have consistent : sent.heap.Consistent := by decide +kernel
  have agrees : sent.Agrees :=
    { homeOf := ⟨.object 6, by decide +kernel, by decide +kernel⟩
      runs := by decide +kernel
      receives := by decide +kernel
      next := ⟨MethodHeader.pack 0 0 1 0 false, by decide +kernel, by decide +kernel⟩
      inside := ⟨#[.object 0, .object 0, .object 0, .object 6, .object 0, .object 8, .object 8,
        .object 0], by decide +kernel, by decide +kernel⟩
      fits := by decide +kernel }
  have spares : sent.Spares := by
    constructor <;> intro large context free <;> cases large <;> cases free
  have found : Run.resolveMessage (.object 1) (sent.sending (.object 4) 0 (.object 1))
      = .ok true resolved := Run.ended?_eq_some.mp (by decide +kernel)
  have ended : Run.enter resolved = .ok () entered :=
    Run.ended?_eq_some.mp (by decide +kernel)
  have quiet := Run.ActivatesQuietly.of_counting ended (by decide +kernel)
  have nil : sent.KeepsNil := ⟨rfl, by decide +kernel, by decide +kernel, fun large => by
    cases large <;> decide +kernel⟩
  rcases @send_then_return _ _ 0 _ _ _ _ consistent agrees spares (by decide +kernel) found
    (by decide +kernel) quiet with ⟨activated, header, callee, -, -, waits, returns⟩
  rcases returns _ waits (.object 8) with ⟨goesOn, ends⟩
  rcases ends nil with ⟨⟨⟩, final, returned⟩
  have active : sent.registers.activeContext = .object 7 := by decide +kernel
  rw [active] at returned goesOn
  rw [show after = _ from Run.left_of_ok activated]
  exact ⟨by decide +kernel, final, returned, goesOn () final returned⟩

/-- A machine whose active context is a block, the home of which is a free context. -/
def homelessMachine : Machine :=
  let nil : Value := .object 0
  let machine := sampleMachine
    [sampleNode nil #[], sampleNode .zero #[nil, .object 2, .zero],
      sampleNode .zero #[.zero, .object 3, .object 4], sampleNode .zero #[.object 5],
      sampleNode .zero #[], sampleMethod 0 [] #[120], sampleMethod 0 [.object 4] #[112, 208],
      sampleNode .zero #[nil, nil, nil, .zero, nil, .object 9, .object 8, nil],
      sampleNode (.object 1) #[],
      sampleNode nil #[nil, nil, nil, .object 6, nil, .object 8, nil, nil]] 20 nil
  { machine with
    timing.counter := 1
    registers := { machine.registers with
      homeContext := .object 9, sp := 6, freeContexts := [.object 9] } }

/-- A free context need not be on the sender chain to be in use: the message of a block
takes the home of the block for its frame, and the block does not find its method again
when the message returns. -/
theorem not_goesOn_homelessMachine :
    let free : Value := .object 9
    let resolved := (Run.resolveMessage (.object 1)).left
      (homelessMachine.sending (.object 4) 0 (.object 1))
    let after := (Run.sendToClass 1 (.object 4) 0 (.object 1)).left homelessMachine
    homelessMachine.heap.Consistent ∧ homelessMachine.Agrees ∧
      homelessMachine.registers.freeContexts = [free] ∧
      homelessMachine.registers.freeLargeContexts = [] ∧
      homelessMachine.HasFrame homelessMachine.config.smallFrameSize free ∧
      (∀ contexts, ¬ homelessMachine.heap.Ascends free
        homelessMachine.registers.activeContext contexts) ∧
      Run.resolveMessage (.object 1) (homelessMachine.sending (.object 4) 0 (.object 1))
        = .ok true resolved ∧
      resolved.registers.primitiveIndex = 0 ∧ Run.ActivatesQuietly resolved after ∧
      ∃ final, Run.returnTo (.object 8) homelessMachine.registers.activeContext after
          = .ok () final ∧
        final.registers.method ≠ homelessMachine.registers.method ∧
        ¬ homelessMachine.GoesOn 0 (.object 8) final := by
  intro free resolved after
  let entered := Run.enter.left resolved
  have agrees : homelessMachine.Agrees :=
    { homeOf := ⟨.zero, by decide +kernel, by decide +kernel⟩
      runs := by decide +kernel
      receives := by decide +kernel
      next := ⟨MethodHeader.pack 0 0 1 0 false, by decide +kernel, by decide +kernel⟩
      inside := ⟨#[.object 0, .object 0, .object 0, .zero, .object 0, .object 9, .object 8,
        .object 0], by decide +kernel, by decide +kernel⟩
      fits := by decide +kernel }
  have frame : homelessMachine.HasFrame homelessMachine.config.smallFrameSize free :=
    ⟨_, _, rfl, rfl, rfl, rfl⟩
  -- The chain is the active context and nil, which has no sender.
  have apart : ∀ contexts, ¬ homelessMachine.heap.Ascends free
      homelessMachine.registers.activeContext contexts := by
    intro contexts ascends
    change homelessMachine.heap.Ascends (.object 9) _ _ at ascends
    generalize start : homelessMachine.registers.activeContext = context at ascends
    cases ascends with
    | arrived => exact absurd start (by decide +kernel)
    | @sent _ sender _ _ found ascends =>
      subst start
      have known : homelessMachine.heap.fetch homelessMachine.registers.activeContext
          ContextField.sender = .ok (.object 0) := by decide +kernel
      rw [found] at known
      cases known
      cases ascends with
      | sent _ found _ =>
        have unknown : (homelessMachine.heap.fetch (.object 0) ContextField.sender).isOk = false :=
          by decide +kernel
        rw [found] at unknown
        cases unknown
  have found : Run.resolveMessage (.object 1)
      (homelessMachine.sending (.object 4) 0 (.object 1)) = .ok true resolved :=
    Run.ended?_eq_some.mp (by decide +kernel)
  have ended : Run.enter resolved = .ok () entered :=
    Run.ended?_eq_some.mp (by decide +kernel)
  have nonPrimitive : resolved.registers.primitiveIndex = 0 := by decide +kernel
  have quiet := Run.ActivatesQuietly.of_counting ended (by decide +kernel)
  have activated := quiet Run.signal
  rw [Run.activateMethodBy_signal] at activated
  have same : after = _ :=
    Run.left_of_ok (@sendToClass_of_found _ _ 0 _ _ _ _ found nonPrimitive activated)
  rw [same]
  let final := (Run.returnTo (.object 8) homelessMachine.registers.activeContext).left
    { entered with timing.counter := entered.timing.counter - 1 }
  have returned : Run.returnTo (.object 8) homelessMachine.registers.activeContext
      { entered with timing.counter := entered.timing.counter - 1 } = .ok () final :=
    Run.ended?_eq_some.mp (by decide +kernel)
  have lost : final.registers.method ≠ homelessMachine.registers.method := by decide +kernel
  exact ⟨by decide +kernel, agrees, rfl, rfl, frame, apart, found, nonPrimitive, quiet, final,
    returned, lost, fun goesOn => lost goesOn.runs⟩

end Machine

end Smalltalk

import Smalltalk.Proofs.Frame.Switches

namespace Smalltalk

/-! The stack pointer lies inside the frame of the active context wherever contexts are loaded
that keep one that does. Signalling the semaphores of the interrupt key and of the timer may
load another context, and otherwise leaves the stack pointers that contexts keep. -/

namespace Heap

variable {before middle after : Heap}

/-- Objects have their classes and sizes, and all their fields but those with which lists and
processes are linked. -/
structure Relinks (before after : Heap) : Prop where
  species : ∀ value, (after.get? value).map HeapObject.species
    = (before.get? value).map HeapObject.species
  pointerCount : ∀ value, after.pointerCount value = before.pointerCount value
  fetch : ∀ value index, index = ContextField.stackPointer ∨ ProcessField.myList < index →
    after.fetch value index = before.fetch value index

namespace Relinks

theorem refl (heap : Heap) : heap.Relinks heap :=
  ⟨fun _ => rfl, fun _ => rfl, fun _ _ _ => rfl⟩

theorem setField (relinks : before.Relinks after) (object : Value) {index : Nat} (value : Value)
    (link : index ≠ ContextField.stackPointer ∧ index ≤ ProcessField.myList) :
    before.Relinks (after.setField object index value) where
  species other := (species_setField ..).trans (relinks.species other)
  pointerCount other := (pointerCount_setField ..).trans (relinks.pointerCount other)
  fetch other place kept := by
    refine (fetch_setField_other (.inr ?_)).trans (relinks.fetch other place kept)
    rintro rfl
    rcases kept with same | above
    · exact link.1 same
    · exact absurd link.2 (Nat.not_le.mpr above)

end Relinks

end Heap

namespace Machine

variable {start machine after : Machine}

/-- The stack pointer lies inside the frame of the active context. -/
structure Inside (machine : Machine) : Prop where
  lower : ContextField.frame ≤ machine.registers.sp + 1
  upper : machine.registers.sp < machine.heap.pointerCount machine.registers.activeContext

/-- The active context is a context, and the semaphores that the machine itself signals are
none. -/
structure Proper (machine : Machine) : Prop where
  running : machine.isContext machine.registers.activeContext = true
  calm : ∀ index ∈ [Special.interruptSemaphore, Special.timerSemaphore], ∀ semaphore,
    machine.heap.fetch machine.registers.specials.array index = .ok semaphore →
      machine.isContext semaphore = false

/-- And contexts keep stack pointers that lie inside their frames, where they keep any. -/
structure Orderly (machine : Machine) : Prop extends machine.Proper where
  depths : ∀ context, machine.isContext context = true → ∀ depth,
    machine.heap.fetchInt context ContextField.stackPointer = .ok depth →
      0 ≤ depth ∧ ContextField.frame - 1 + depth < machine.heap.pointerCount context

/-- The stack pointer is inside the frame, if contexts keep it so. -/
def Placed (machine : Machine) : Prop := machine.Proper → machine.Inside ∨ machine.Restored

theorem Placed.inside (placed : machine.Placed) (orderly : machine.Orderly) : machine.Inside := by
  rcases placed orderly.toProper with inside | ⟨depth, kept, same⟩
  · exact inside
  · rcases orderly.depths _ orderly.running depth kept with ⟨positive, fits⟩
    have frame : ContextField.frame = 6 := rfl
    constructor <;> omega

/-- Only the class of a value counts. -/
theorem isContext_of_species {value : Value}
    (specials : after.registers.specials = machine.registers.specials)
    (species : (after.heap.get? value).map HeapObject.species
      = (machine.heap.get? value).map HeapObject.species) :
    after.isContext value = machine.isContext value := by
  rw [isContext, isContext, specials]
  cases there : after.heap.get? value <;> cases here : machine.heap.get? value <;> simp_all

/-- Nothing but links has been changed, and the same context is active. -/
structure Relinks (start machine : Machine) : Prop where
  heap : start.heap.Relinks machine.heap
  active : machine.registers.activeContext = start.registers.activeContext
  specials : machine.registers.specials = start.registers.specials
  sp : machine.registers.sp = start.registers.sp

namespace Relinks

theorem refl (machine : Machine) : machine.Relinks machine := ⟨.refl _, rfl, rfl, rfl⟩

theorem isContext_eq (relinks : start.Relinks machine) (value : Value) :
    machine.isContext value = start.isContext value :=
  isContext_of_species relinks.specials (relinks.heap.species value)

theorem proper (relinks : start.Relinks machine) (proper : machine.Proper) : start.Proper where
  running := by
    rw [← relinks.isContext_eq, ← relinks.active]
    exact proper.running
  calm index member semaphore found := by
    rw [← relinks.isContext_eq]
    refine proper.calm index member semaphore ?_
    rw [relinks.specials, relinks.heap.fetch _ _ (.inr ?_)]
    · exact found
    · simp only [List.mem_cons, List.not_mem_nil, or_false] at member
      rcases member with rfl | rfl <;> decide

theorem fetchInt_eq (relinks : start.Relinks machine) (context : Value) :
    machine.heap.fetchInt context ContextField.stackPointer
      = start.heap.fetchInt context ContextField.stackPointer := by
  rw [Heap.fetchInt, relinks.heap.fetch _ _ (.inl rfl), ← Heap.fetchInt]

theorem placed (relinks : start.Relinks machine) (placed : start.Placed) : machine.Placed := by
  intro proper
  rcases placed (relinks.proper proper) with inside | ⟨depth, kept, same⟩
  · refine .inl ⟨relinks.sp ▸ inside.lower, ?_⟩
    rw [relinks.sp, relinks.active, relinks.heap.pointerCount]
    exact inside.upper
  · refine .inr ⟨depth, ?_, relinks.sp ▸ same⟩
    rw [relinks.fetchInt_eq, relinks.active]
    exact kept

/-- The count of signals of a semaphore is no stack pointer. -/
theorem placed_of_counted {index : Nat} {semaphore value : Value} {changed : Machine}
    (member : index ∈ [Special.interruptSemaphore, Special.timerSemaphore])
    (found : start.heap.fetch start.registers.specials.array index = .ok semaphore)
    (relinks : start.Relinks machine) (placed : start.Placed)
    (same : changed = { machine with
      heap := machine.heap.setField semaphore SemaphoreField.excessSignals value }) :
    changed.Placed := by
  subst same
  intro proper
  have species (other : Value) : ({ machine with
      heap := machine.heap.setField semaphore SemaphoreField.excessSignals value } :
      Machine).isContext other = machine.isContext other :=
    isContext_of_species rfl (Heap.species_setField ..)
  have elsewhere {object : Value} {place : Nat} (high : ProcessField.myList < place) :
      (machine.heap.setField semaphore SemaphoreField.excessSignals value).fetch object place
        = machine.heap.fetch object place :=
    Heap.fetch_setField_other (.inr (Nat.ne_of_lt (Nat.lt_trans (by decide) high)))
  have high : ProcessField.myList < index := by
    simp only [List.mem_cons, List.not_mem_nil, or_false] at member
    rcases member with rfl | rfl <;> decide
  have before : machine.Proper := by
    refine ⟨(species _).symm.trans proper.running, fun place listed other known => ?_⟩
    rw [← species]
    refine proper.calm place listed other ((elsewhere ?_).trans known)
    simp only [List.mem_cons, List.not_mem_nil, or_false] at listed
    rcases listed with rfl | rfl <;> decide
  have apart : semaphore ≠ machine.registers.activeContext := by
    rintro rfl
    have idle := before.calm index member _ (by
      rw [relinks.specials, relinks.heap.fetch _ _ (.inr high)]
      exact found)
    exact Bool.noConfusion (idle.symm.trans before.running)
  rcases relinks.placed placed before with inside | ⟨depth, kept, same⟩
  · refine .inl ⟨inside.lower, ?_⟩
    rw [Heap.pointerCount_setField]
    exact inside.upper
  · refine .inr ⟨depth, ?_, same⟩
    rw [Heap.fetchInt, Heap.fetch_setField_other (.inl apart), ← Heap.fetchInt]
    exact kept

end Relinks

/-- Only the heap and the registers count. -/
theorem Placed.of_same (placed : machine.Placed) (heap : after.heap = machine.heap)
    (registers : after.registers = machine.registers) : after.Placed :=
  have relinks : machine.Relinks after :=
    ⟨heap ▸ .refl _, registers ▸ rfl, registers ▸ rfl, registers ▸ rfl⟩
  relinks.placed placed

end Machine

namespace Run

variable {α β : Type} {start machine : Machine}

/-- Nothing but the lists of processes is changed. -/
def Relinked (start : Machine) (run : Run α) : Prop :=
  Maintains start.Relinks run fun _ => True

namespace Relinked

@[grind ←]
theorem bind {run : Run α} {next : α → Run β} (first : Relinked start run)
    (second : ∀ result, Relinked start (next result)) : Relinked start (run >>= next) :=
  Maintains.bind first fun result _ => second result

@[grind ←]
theorem andThen {run : Run Unit} {next : Unit → Run β} (first : Relinked start run)
    (second : Relinked start (next ())) : Relinked start (run >>= next) :=
  first.bind fun _ => second

@[grind ←]
theorem pure {result : α} : Relinked start (Pure.pure result : Run α) := Maintains.pure trivial

theorem ite {condition : Prop} [Decidable condition] {first second : Run α}
    (yes : condition → Relinked start first) (no : ¬ condition → Relinked start second) :
    Relinked start (if condition then first else second) := Maintains.ite yes no

@[grind ←]
theorem getRegisters : Relinked start getRegisters := maintains_getRegisters

@[grind ←]
theorem getNil : Relinked start getNil := maintains_getNil

@[grind ←]
theorem fetch {object : Value} {index : Nat} : Relinked start (fetch object index) :=
  maintains_readHeap

@[grind ←]
theorem fetchInt {object : Value} {index : Nat} : Relinked start (fetchInt object index) :=
  maintains_readHeap

@[grind ←]
theorem modifyRegisters {change : Registers → Registers}
    (same : ∀ registers, ((change registers).activeContext, (change registers).specials,
      (change registers).sp) = (registers.activeContext, registers.specials, registers.sp)) :
    Relinked start (modifyRegisters change) :=
  maintains_modify fun machine relinks => by
    rcases Prod.ext_iff.mp (same machine.registers) with ⟨active, rest⟩
    rcases Prod.ext_iff.mp rest with ⟨specials, sp⟩
    exact ⟨relinks.heap, active.trans relinks.active, specials.trans relinks.specials,
      sp.trans relinks.sp⟩

theorem store {object value : Value} {index : Nat}
    (link : index ≠ ContextField.stackPointer ∧ index ≤ ProcessField.myList) :
    Relinked start (store object index value) :=
  fun machine relinks => (ensures_store machine object index value).mono <| by
    rintro _ _ ⟨-, rfl⟩
    exact ⟨{ relinks with heap := relinks.heap.setField object value link }, trivial⟩

section

variable {object value : Value}

@[grind ←]
theorem storeFirstLink : Relinked start (Run.store object ListField.firstLink value) :=
  store (by decide)

@[grind ←]
theorem storeLastLink : Relinked start (Run.store object ListField.lastLink value) :=
  store (by decide)

@[grind ←]
theorem storeNextLink : Relinked start (Run.store object ProcessField.nextLink value) :=
  store (by decide)

@[grind ←]
theorem storeMyList : Relinked start (Run.store object ProcessField.myList value) :=
  store (by decide)

@[grind ←]
theorem storeSender : Relinked start (Run.store object ContextField.sender value) :=
  store (by decide)

@[grind ←]
theorem storePc : Relinked start (Run.store object ContextField.pc value) :=
  store (by decide)

end

@[grind ←]
theorem specialObject {index : Nat} : Relinked start (specialObject index) := by
  grind [Run.specialObject]

@[grind ←]
theorem scheduler : Relinked start scheduler := by
  grind [Run.scheduler]

@[grind ←]
theorem activeProcess : Relinked start activeProcess := by
  grind [Run.activeProcess]

@[grind ←]
theorem priorityOf {process : Value} : Relinked start (priorityOf process) := by
  grind [Run.priorityOf]

@[grind ←]
theorem isEmptyList {list : Value} : Relinked start (isEmptyList list) := by
  grind [Run.isEmptyList]

@[grind ←]
theorem addLast {link list : Value} : Relinked start (addLast link list) := by
  grind [Run.addLast]

@[grind ←]
theorem removeFirst {list : Value} : Relinked start (removeFirst list) := by
  refine getNil.bind fun nil => fetch.bind fun first => fetch.bind fun last => ?_
  split <;> grind

@[grind ←]
theorem readyList {priority : Nat} : Relinked start (readyList priority) := by
  grind [Run.readyList, Run.readyLists]

@[grind ←]
theorem sleep {process : Value} : Relinked start (sleep process) := by
  grind [Run.sleep]

theorem recycle {context : Value} : Relinked start (recycle context) := by
  have looked : Relinked start (get : Run Machine) := maintains_get
  refine looked.bind fun machine => ?_
  split
  · exact .pure
  · refine .ite (fun _ => .pure) fun _ => .ite (fun _ => modifyRegisters fun _ => rfl) fun _ => ?_
    exact .ite (fun _ => modifyRegisters fun _ => rfl) fun _ => .pure

theorem retire {context : Value} : Relinked start (retire context) := by
  refine getNil.bind fun nil => .andThen (Maintains.discard fetch) ?_
  refine storeSender.andThen (storePc.andThen (getRegisters.bind fun registers => ?_))
  refine .ite (fun _ => .andThen ?_ recycle) fun _ => .pure
  exact modifyRegisters fun _ => rfl

theorem contextsAbove {target context : Value} {budget : Nat} :
    Relinked start (contextsAbove target budget context) := by
  induction budget generalizing context with
  | zero =>
    refine .ite (fun _ => .pure) fun _ => getNil.bind fun nil => ?_
    exact .ite (fun _ => Maintains.failThen) fun _ => Maintains.throw
  | succ budget induction =>
    refine .ite (fun _ => .pure) fun _ => getNil.bind fun nil => ?_
    refine .ite (fun _ => Maintains.failThen) fun _ => fetch.bind fun sender => ?_
    exact induction.bind fun _ => .pure

theorem retireAll {contexts : List Value} : Relinked start (contexts.forM Run.retire) := by
  induction contexts with
  | nil => exact .pure
  | cons context rest induction => exact retire.andThen induction

end Relinked

/-! ## Signals -/

theorem transferTo_restores (process : Value) :
    (transferTo process).Ensures machine fun _ after => after.Restored := by
  refine .later fun nil _ => .later fun scheduler _ => .later fun suspended _ => ?_
  refine .later fun _ _ => .later fun registers _ => .later fun _ _ => .later fun _ _ => ?_
  refine .later fun context _ => .later fun _ left => ?_
  refine (loadContext_restores left context).bind fun _ loaded ⟨_, _, _, restored⟩ => ?_
  refine (ensures_modifyRegisters loaded _).mono ?_
  rintro _ _ rfl
  exact restored

theorem resume_relinks (relinks : start.Relinks machine) (process : Value) :
    (resume process).Ensures machine fun _ after => start.Relinks after ∨ after.Restored := by
  refine (Relinked.activeProcess machine relinks).bind fun active _ ⟨relinks, _⟩ => ?_
  refine (Relinked.priorityOf _ relinks).bind fun priority _ ⟨relinks, _⟩ => ?_
  refine (Relinked.priorityOf _ relinks).bind fun own between ⟨relinks, _⟩ => ?_
  split
  · exact .later fun _ _ => (transferTo_restores process).mono fun _ _ => .inr
  · exact (Relinked.sleep between relinks).mono fun _ _ ended => .inl ended.1

/-- A semaphore of the machine itself is signalled. -/
theorem signalSpecial_places (placed : machine.Placed) (index : Nat)
    (member : index ∈ [Special.interruptSemaphore, Special.timerSemaphore]) :
    (signalSpecial index).Ensures machine fun _ after => after.Placed := by
  refine (ensures_specialObject machine index).bindTo fun semaphore found => ?_
  refine (ensures_getNil machine).bindExactly ?_
  split
  · refine (Relinked.isEmptyList machine (.refl machine)).bind
      fun empty between ⟨relinks, _⟩ => ?_
    cases empty with
    | true =>
      refine (ensures_fetchInt between semaphore _).bindTo fun excess _ => ?_
      refine (ensures_store between semaphore _ _).mono fun _ after ended => ?_
      exact relinks.placed_of_counted member found placed ended.2
    | false =>
      refine (Relinked.removeFirst between relinks).bind fun first _ ⟨relinks, _⟩ => ?_
      refine (resume_relinks relinks first).mono fun _ after ended => ?_
      rcases ended with relinks | restored
      · exact relinks.placed placed
      · exact fun _ => .inr restored
  · exact .pure placed

theorem checkInterruptsAt_places (placed : machine.Placed) (now : Int) :
    (checkInterruptsAt now).Ensures machine fun _ after => after.Placed := by
  refine (ensures_modify machine _).bind fun _ ticked same => ?_
  have ticked : ticked.Placed := placed.of_same (by rw [same]) (by rw [same])
  have wakeup (left : Machine) (placed : left.Placed) : (do
      if ← takeWakeup now then signalSpecial Special.timerSemaphore : Run Unit).Ensures left
        fun _ after => after.Placed := by
    refine (ensures_modifyGet left _).bind fun expired woken taken => ?_
    cases taken
    split
    · refine signalSpecial_places ?_ Special.timerSemaphore (by simp)
      exact placed.of_same rfl rfl
    · refine .pure ?_
      exact placed.of_same rfl rfl
  refine (ensures_modifyGet _ _).bind fun interrupted asked taken => ?_
  cases taken
  split
  · refine (signalSpecial_places ?_ Special.interruptSemaphore (by simp)).bind fun _ => wakeup
    exact ticked.of_same rfl rfl
  · refine wakeup _ ?_
    exact ticked.of_same rfl rfl

/-- Looking at the clock places the stack pointer. -/
theorem checkInterrupts_places (placed : machine.Placed) :
    checkInterrupts.Ensures machine fun _ after => after.Placed := by
  refine (ensures_get machine).bindExactly ?_
  refine (ensures_modify machine _).bind fun _ counted same => ?_
  have counted : counted.Placed := placed.of_same (by rw [same]) (by rw [same])
  split
  · refine (ensures_get _).bindExactly ?_
    exact checkInterruptsAt_places counted _
  · exact .pure counted

/-- The context of a method that is activated brings its stack pointer along. -/
theorem activateMethod_places : activateMethod.Ensures machine fun _ after => after.Placed := by
  -- Whatever is written to the new context before, it is loaded in the end.
  refine .later fun registers _ => .later fun header _ => .later fun context _ => ?_
  refine .later fun _ _ => .later fun _ _ => .later fun _ _ => .later fun _ _ => ?_
  refine .later fun _ _ => .later fun _ _ => .later fun _ _ => .later fun _ _ => ?_
  refine .later fun _ left => (activate_restores left context).bind fun _ loaded ⟨_, restored⟩ => ?_
  exact checkInterrupts_places fun _ => .inr restored

/-! ## Returns -/

/-- A value is pushed onto the stack that the target of a return has kept. -/
theorem returnTo_inside (orderly : start.Orderly) (value target : Value) :
    (returnTo value target).Ensures start fun _ after => after.Orderly → after.Inside := by
  refine (ensures_getNil start).bindExactly ?_
  split
  · exact .bind .fail fun _ _ absurd => absurd
  refine (ensures_fetch start _ _).bindTo fun pc _ => ?_
  split
  · exact .bind .fail fun _ _ absurd => absurd
  refine (ensures_getHeap start).bindExactly ((ensures_getRegisters start).bindExactly ?_)
  refine (Relinked.contextsAbove start (.refl start)).bind fun left between ⟨relinks, _⟩ => ?_
  refine (Relinked.retireAll between relinks).bind fun _ retired ⟨relinks, _⟩ => ?_
  refine (loadContext_restores retired target).bind fun _ loaded ⟨heap, specials, active, kept⟩ => ?_
  refine (ensures_push loaded value).mono ?_
  rintro _ after ⟨held, changed⟩ ends
  rcases kept with ⟨depth, kept, same⟩
  have running : after.registers.activeContext = target := by rw [changed, ← active]
  have context : after.isContext target = retired.isContext target := by
    refine Machine.isContext_of_species (by rw [changed, ← specials]) ?_
    rw [changed, ← heap]
    exact Heap.species_setField ..
  rw [heap, active, relinks.fetchInt_eq] at kept
  rw [relinks.isContext_eq, ← running, ends.running, running] at context
  rcases orderly.depths target context.symm depth kept with ⟨positive, -⟩
  refine ⟨?_, Heap.lt_pointerCount_of_fetch held⟩
  have frame : ContextField.frame = 6 := rfl
  rw [changed]
  change ContextField.frame ≤ loaded.registers.sp + 1 + 1
  omega

end Run

end Smalltalk

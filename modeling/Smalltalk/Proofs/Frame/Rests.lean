import Smalltalk.Proofs.Frame.Provision
import Smalltalk.Proofs.Primitive.Counts

namespace Smalltalk

/-! While the machine works out what to answer, the frame of the running method rests: the
same context is active, with the same stack pointer, and what lies in its frame stays. -/

namespace Heap

variable {before middle after heap : Heap} {context : Value} {bottom : Nat}

/-- A context has as many fields as it had, and from its first temporary up to `bottom` they
hold what they held. -/
def KeepsSlots (before after : Heap) (context : Value) (bottom : Nat) : Prop :=
  ∃ old new, before.pointers context = .ok old ∧ after.pointers context = .ok new ∧
    new.size = old.size ∧
    ∀ index, ContextField.frame ≤ index → index ≤ bottom → new[index]? = old[index]?

namespace KeepsSlots

theorem refl {fields : Array Value} (readable : before.pointers context = .ok fields) :
    before.KeepsSlots before context bottom :=
  ⟨fields, fields, readable, readable, rfl, fun _ _ _ => rfl⟩

theorem trans (early : before.KeepsSlots middle context bottom)
    (late : middle.KeepsSlots after context bottom) : before.KeepsSlots after context bottom := by
  rcases early with ⟨old, between, first, second, size, same⟩
  rcases late with ⟨between', new, again, last, later, further⟩
  cases second.symm.trans again
  exact ⟨old, new, first, last, later.trans size, fun index framed inside =>
    (further index framed inside).trans (same index framed inside)⟩

theorem of_pointers (keeps : before.KeepsSlots middle context bottom)
    (same : after.pointers context = middle.pointers context) :
    before.KeepsSlots after context bottom := by
  rcases keeps with ⟨old, new, first, second, size, equal⟩
  exact ⟨old, new, first, same.trans second, size, equal⟩

/-- Fields of another context, those before the frame and those above `bottom` may be
written. -/
theorem setField (keeps : before.KeepsSlots after context bottom) {object : Value} {index : Nat}
    (value : Value)
    (apart : object = context → index < ContextField.frame ∨ bottom < index) :
    before.KeepsSlots (after.setField object index value) context bottom := by
  by_cases same : object = context
  · rcases keeps with ⟨old, new, first, second, size, equal⟩
    subst same
    refine ⟨old, new.setIfInBounds index value, first, ?_, by simpa using size, ?_⟩
    · rw [pointers_setField_same, second]
      rfl
    · intro place framed inside
      rw [Array.getElem?_setIfInBounds_ne (by have := apart rfl; omega)]
      exact equal place framed inside
  · exact keeps.of_pointers (pointers_setField_other same)

theorem fetch_eq (keeps : before.KeepsSlots after context bottom) {index : Nat}
    (framed : ContextField.frame ≤ index) (inside : index ≤ bottom) :
    after.fetch context index = before.fetch context index := by
  rcases keeps with ⟨old, new, first, second, -, same⟩
  rw [fetch, second, fetch, first]
  simp only [bind, Except.bind, same index framed inside]

theorem pointerCount_eq (keeps : before.KeepsSlots after context bottom) :
    after.pointerCount context = before.pointerCount context := by
  rcases keeps with ⟨old, new, first, second, size, -⟩
  rw [pointerCount_of_pointers second, size, pointerCount_of_pointers first]

theorem holds (keeps : before.KeepsSlots after context bottom) : after.Holds context := by
  rcases keeps with ⟨old, new, -, readable, -, -⟩
  rcases pointers_eq_ok_iff.mp readable with ⟨owner, here, -⟩
  cases context with
  | small n => trivial
  | object slot => exact live_of_cell? here

end KeepsSlots

end Heap

namespace Machine

variable {start machine : Machine} {bottom : Nat}

/-- The frame that is active at the start still is, with what lies in it up to `bottom`. -/
structure Stands (start : Machine) (bottom : Nat) (machine : Machine) : Prop where
  consistent : machine.heap.Consistent
  active : machine.registers.activeContext = start.registers.activeContext
  specials : machine.registers.specials = start.registers.specials
  slots : start.heap.KeepsSlots machine.heap start.registers.activeContext bottom

/-- The stack pointer is the same as well, and so is the number of arguments. -/
structure Rests (start : Machine) (bottom : Nat) (machine : Machine) : Prop
    extends start.Stands bottom machine where
  sp : machine.registers.sp = start.registers.sp
  argumentCount : machine.registers.argumentCount = start.registers.argumentCount

/-- Only what is active, the special objects and the heap count. -/
theorem Stands.of_same (stands : start.Stands bottom machine) {after : Machine}
    (heap : after.heap = machine.heap)
    (active : after.registers.activeContext = machine.registers.activeContext)
    (specials : after.registers.specials = machine.registers.specials) :
    start.Stands bottom after where
  consistent := heap ▸ stands.consistent
  active := active.trans stands.active
  specials := specials.trans stands.specials
  slots := heap ▸ stands.slots

/-- The stack pointer has not come to the end of the active context. -/
def Fits (machine : Machine) : Prop :=
  machine.registers.sp < machine.heap.pointerCount machine.registers.activeContext

/-- The frame stands, and the stack pointer may have moved in it. -/
structure Carries (start : Machine) (bottom : Nat) (machine : Machine) : Prop
    extends start.Stands bottom machine where
  fits : start.Fits → machine.Fits

/-- An object that may be written without touching the frame up to `bottom`. -/
def Clear (start : Machine) (bottom : Nat) (object : Value) : Prop :=
  object = start.registers.activeContext → bottom < ContextField.frame

namespace Stands

theorem trans {after : Machine} (early : start.Stands bottom machine)
    (late : machine.Stands bottom after) : start.Stands bottom after where
  consistent := late.consistent
  active := late.active.trans early.active
  specials := late.specials.trans early.specials
  slots := early.slots.trans (early.active ▸ late.slots)

theorem pointerCount_eq (stands : start.Stands bottom machine) :
    machine.heap.pointerCount machine.registers.activeContext
      = start.heap.pointerCount start.registers.activeContext := by
  rw [stands.active]
  exact stands.slots.pointerCount_eq

theorem carries (stands : start.Stands bottom machine)
    (lower : machine.registers.sp ≤ start.registers.sp) : start.Carries bottom machine where
  toStands := stands
  fits inside := by
    rw [Fits, stands.pointerCount_eq]
    exact Nat.lt_of_le_of_lt lower inside

end Stands

namespace Carries

theorem trans {after : Machine} (early : start.Carries bottom machine)
    (late : machine.Carries bottom after) : start.Carries bottom after where
  toStands := early.toStands.trans late.toStands
  fits inside := late.fits (early.fits inside)

theorem of_same (carries : start.Carries bottom machine) {after : Machine}
    (heap : after.heap = machine.heap)
    (active : after.registers.activeContext = machine.registers.activeContext)
    (specials : after.registers.specials = machine.registers.specials)
    (sp : after.registers.sp = machine.registers.sp) : start.Carries bottom after where
  toStands := carries.toStands.of_same heap active specials
  fits inside := by
    rw [Fits, heap, active, sp]
    exact carries.fits inside

end Carries

theorem Rests.carries (rests : start.Rests bottom machine) : start.Carries bottom machine :=
  rests.toStands.carries rests.sp.le

namespace Rests

theorem refl (consistent : start.heap.Consistent) {fields : Array Value}
    (readable : start.heap.pointers start.registers.activeContext = .ok fields) :
    start.Rests bottom start :=
  ⟨⟨consistent, rfl, rfl, .refl readable⟩, rfl, rfl⟩

theorem of_fetch (consistent : start.heap.Consistent) {index : Nat} {value : Value}
    (found : start.heap.fetch start.registers.activeContext index = .ok value) :
    start.Rests bottom start := by
  rcases Heap.fetch_eq_ok_iff.mp found with ⟨fields, readable, -⟩
  exact refl consistent readable

/-- Devices, caches and most registers are not part of the frame. -/
theorem of_same (rests : start.Rests bottom machine) {after : Machine}
    (heap : after.heap = machine.heap)
    (active : after.registers.activeContext = machine.registers.activeContext)
    (specials : after.registers.specials = machine.registers.specials)
    (sp : after.registers.sp = machine.registers.sp)
    (argumentCount : after.registers.argumentCount = machine.registers.argumentCount) :
    start.Rests bottom after where
  consistent := heap ▸ rests.consistent
  active := active.trans rests.active
  specials := specials.trans rests.specials
  sp := sp.trans rests.sp
  argumentCount := argumentCount.trans rests.argumentCount
  slots := heap ▸ rests.slots

theorem withHeap (rests : start.Rests bottom machine) {heap : Heap}
    (consistent : heap.Consistent)
    (slots : start.heap.KeepsSlots heap start.registers.activeContext bottom) :
    start.Rests bottom { machine with heap } :=
  ⟨⟨consistent, rests.active, rests.specials, slots⟩, rests.sp, rests.argumentCount⟩

theorem setField (rests : start.Rests bottom machine) {object : Value} {index : Nat}
    (value : Value)
    (apart : object = start.registers.activeContext →
      index < ContextField.frame ∨ bottom < index) :
    start.Rests bottom { machine with heap := machine.heap.setField object index value } :=
  rests.withHeap (Heap.consistent_update rests.consistent _ _) (rests.slots.setField value apart)

/-- The values of another object may be changed, and where only the number of fields counts
those of the active context as well. -/
theorem mapPointers (rests : start.Rests bottom machine) {target : Value}
    (clear : start.Clear bottom target) {change : Array Value → Array Value}
    (size : ∀ fields, machine.heap.pointers target = .ok fields →
      (change fields).size = fields.size) :
    start.Rests bottom { machine with
      heap := machine.heap.updateBody target (·.mapPointers change) } := by
  refine rests.withHeap (Heap.consistent_update rests.consistent _ _) ?_
  by_cases same : target = start.registers.activeContext
  · rcases rests.slots with ⟨old, new, first, second, equal, -⟩
    rw [← same] at second
    refine ⟨old, change new, first, ?_, (size new second).trans equal, ?_⟩
    · rcases Heap.pointers_eq_ok_iff.mp second with ⟨owner, here, pointers⟩
      refine same ▸ Heap.pointers_eq_ok_iff.mpr ⟨_, machine.heap.get?_update_same target _ |>.trans
        (by rw [here]; rfl), ?_⟩
      rw [HeapObject.pointers?] at pointers ⊢
      simp [pointers]
    · intro index framed inside
      have := clear same
      omega
  · have found : (machine.heap.updateBody target (·.mapPointers change)).get?
        start.registers.activeContext = machine.heap.get? start.registers.activeContext :=
      machine.heap.get?_update_other same _
    refine rests.slots.of_pointers ?_
    rw [Heap.pointers, Heap.object, found, Heap.pointers, Heap.object]

/-- The active context survives every collection. -/
theorem of_survives (rests : start.Rests bottom machine) {heap : Heap} {registers : Registers}
    (survives : Rooted.Survives ⟨machine.heap, machine.registers⟩ ⟨heap, registers⟩) :
    start.Rests bottom { machine with heap, registers } := by
  have forgotten : registers.forget = machine.registers.forget :=
    Registers.forget_of_flushed survives.flushed
  have frame := Registers.frame_of_forget forgotten
  have specials := congrArg Registers.specials forgotten
  have root : machine.registers.activeContext ∈ registers.values := by
    rw [← frame.1]
    simp [Registers.values]
  have held := survives.held _ root (rests.active ▸ rests.slots.holds)
  have same := survives.get?_eq held
  rw [rests.active] at same
  refine
    { consistent := survives.consistent
      active := frame.1.trans rests.active
      specials := Eq.trans specials rests.specials
      sp := frame.2.2.2.2.2.1.trans rests.sp
      argumentCount := frame.2.2.2.2.2.2.trans rests.argumentCount
      slots := rests.slots.of_pointers ?_ }
  change heap.pointers _ = machine.heap.pointers _
  rw [Heap.pointers, Heap.object, same, Heap.pointers, Heap.object]

/-- A new object is apart from the active context. -/
theorem of_places (rests : start.Rests bottom machine) {heap : Heap} {object : HeapObject}
    {slot : Nat} (places : Heap.Places object slot machine.heap heap) :
    start.Rests bottom { machine with heap } ∧
      Value.object slot ≠ start.registers.activeContext := by
  have holds := rests.slots.holds
  have apart : Value.object slot ≠ start.registers.activeContext := by
    intro same
    rw [← same] at holds
    exact places.dead holds
  refine ⟨rests.withHeap places.consistent (rests.slots.of_pointers ?_), apart⟩
  have same : heap.get? start.registers.activeContext
      = machine.heap.get? start.registers.activeContext := by
    cases named : start.registers.activeContext with
    | small n => rfl
    | object other =>
      exact places.others other fun equal => apart (by rw [named, equal])
  rw [Heap.pointers, Heap.object, same, Heap.pointers, Heap.object]

/-- What lies in the frame is what lay there at the start. -/
theorem operand_eq (rests : start.Rests bottom machine) {depth : Nat} {value : Value}
    (found : machine.heap.fetch machine.registers.activeContext (machine.registers.sp - depth)
      = .ok value)
    (framed : ContextField.frame ≤ start.registers.sp - depth)
    (inside : start.registers.sp - depth ≤ bottom) :
    start.heap.fetch start.registers.activeContext (start.registers.sp - depth) = .ok value := by
  rw [rests.active, rests.sp] at found
  exact (rests.slots.fetch_eq framed inside).symm.trans found

end Rests

end Machine

namespace Run

variable {α β : Type} {start : Machine} {bottom : Nat}

/-- The frame rests during the computation. -/
def Rested (start : Machine) (bottom : Nat) (run : Run α) : Prop :=
  Maintains (start.Rests bottom) run fun _ => True

namespace Rested

@[grind ←]
theorem bind {run : Run α} {next : α → Run β} (first : Rested start bottom run)
    (second : ∀ result, Rested start bottom (next result)) :
    Rested start bottom (run >>= next) :=
  Maintains.bind first fun result _ => second result

@[grind ←]
theorem andThen {run : Run Unit} {next : Unit → Run β} (first : Rested start bottom run)
    (second : Rested start bottom (next ())) : Rested start bottom (run >>= next) :=
  first.bind fun _ => second

@[grind ←]
theorem pure {result : α} : Rested start bottom (Pure.pure result : Run α) :=
  Maintains.pure trivial

@[grind ←]
theorem throw {stop : Stop} : Rested start bottom (MonadExcept.throw stop : Run α) :=
  Maintains.throw

@[grind ←]
theorem fail {reason : MachineError} : Rested start bottom (Run.fail reason : Run α) :=
  Maintains.fail

@[grind ←]
theorem throwThen {stop : Stop} {next : β → Run α} :
    Rested start bottom ((MonadExcept.throw stop : Run β) >>= next) := Maintains.throwThen

@[grind ←]
theorem failThen {reason : MachineError} {next : β → Run α} :
    Rested start bottom (Run.fail reason >>= next) := Maintains.failThen

theorem ite {condition : Prop} [Decidable condition] {first second : Run α}
    (yes : condition → Rested start bottom first) (no : ¬ condition → Rested start bottom second) :
    Rested start bottom (if condition then first else second) := Maintains.ite yes no

end Rested

/-- What is known of a result may be forgotten. -/
theorem Maintains.rested {run : Run α} {good : α → Prop}
    (maintains : Maintains (start.Rests bottom) run good) : Rested start bottom run :=
  fun machine rests => (maintains machine rests).mono fun _ _ ended => ⟨ended.1, trivial⟩

/-! ## The machine itself -/

@[grind ←]
theorem get_rests : Rested start bottom (get : Run Machine) := maintains_get

@[grind ←]
theorem getRegisters_rests : Rested start bottom getRegisters := maintains_getRegisters

@[grind ←]
theorem getHeap_rests : Rested start bottom getHeap := maintains_getHeap

@[grind ←]
theorem getNil_rests : Rested start bottom getNil := maintains_getNil

/-- The special objects are those of the start. -/
theorem specials_rests : Maintains (start.Rests bottom) getRegisters fun registers =>
    registers.specials = start.registers.specials :=
  fun machine rests => (ensures_getRegisters machine).mono <| by
    rintro _ _ ⟨rfl, rfl⟩
    exact ⟨rests, rests.specials⟩

theorem modify_rests {change : Machine → Machine}
    (heap : ∀ machine, (change machine).heap = machine.heap)
    (active : ∀ machine, (change machine).registers.activeContext
      = machine.registers.activeContext)
    (specials : ∀ machine, (change machine).registers.specials = machine.registers.specials)
    (sp : ∀ machine, (change machine).registers.sp = machine.registers.sp)
    (argumentCount : ∀ machine, (change machine).registers.argumentCount
      = machine.registers.argumentCount) : Rested start bottom (modify change : Run Unit) :=
  maintains_modify fun machine rests => rests.of_same (heap machine) (active machine)
    (specials machine) (sp machine) (argumentCount machine)

/-- The devices and the clocks are not part of the frame. -/
@[grind ←]
theorem modifyDevices_rests {change : Machine → Machine}
    (same : ∀ machine, ((change machine).heap, (change machine).registers)
      = (machine.heap, machine.registers)) :
    Rested start bottom (modify change : Run Unit) := by
  have registers (machine : Machine) : (change machine).registers = machine.registers :=
    congrArg Prod.snd (same machine)
  exact modify_rests (fun machine => congrArg Prod.fst (same machine))
    (fun machine => congrArg Registers.activeContext (registers machine))
    (fun machine => congrArg Registers.specials (registers machine))
    (fun machine => congrArg Registers.sp (registers machine))
    (fun machine => congrArg Registers.argumentCount (registers machine))

theorem modifyGet_rests {change : Machine → α × Machine}
    (same : ∀ machine, start.Rests bottom machine → start.Rests bottom (change machine).2) :
    Rested start bottom (modifyGet change : Run α) :=
  maintains_modifyGet same

@[grind ←]
theorem modifyRegisters_rests {change : Registers → Registers}
    (same : ∀ registers, ((change registers).activeContext, (change registers).specials,
      (change registers).sp, (change registers).argumentCount)
        = (registers.activeContext, registers.specials, registers.sp, registers.argumentCount)) :
    Rested start bottom (modifyRegisters change) :=
  modify_rests (fun _ => rfl)
    (fun machine => congrArg Prod.fst (same machine.registers))
    (fun machine => congrArg (fun state => state.2.1) (same machine.registers))
    (fun machine => congrArg (fun state => state.2.2.1) (same machine.registers))
    (fun machine => congrArg (fun state => state.2.2.2) (same machine.registers))

/-! ## The heap -/

@[grind ←]
theorem readHeap_rests {query : Heap → Except MemoryError α} :
    Rested start bottom (readHeap query) := maintains_readHeap

@[grind ←]
theorem fetch_rests {object : Value} {index : Nat} : Rested start bottom (fetch object index) :=
  readHeap_rests

@[grind ←]
theorem fetchInt_rests {object : Value} {index : Nat} :
    Rested start bottom (fetchInt object index) := readHeap_rests

@[grind ←]
theorem object_rests {value : Value} : Rested start bottom (object value) := readHeap_rests

@[grind ←]
theorem methodHeader_rests {method : Value} : Rested start bottom (methodHeader method) :=
  maintains_methodHeader

@[grind ←]
theorem classFormat_rests {species : Value} : Rested start bottom (classFormat species) :=
  readHeap_rests

@[grind ←]
theorem classOf_rests {value : Value} : Rested start bottom (classOf value) := by
  grind [classOf]

@[grind ←]
theorem specialObject_rests {index : Nat} : Rested start bottom (specialObject index) := by
  grind [specialObject]

theorem storeApart_rests {object value : Value} {index : Nat}
    (apart : object = start.registers.activeContext →
      index < ContextField.frame ∨ bottom < index) :
    Rested start bottom (store object index value) :=
  fun machine rests => (ensures_store machine object index value).mono <| by
    rintro _ _ ⟨-, rfl⟩
    exact ⟨rests.setField value apart, trivial⟩

@[grind ←]
theorem store_rests {object value : Value} {index : Nat} (clear : start.Clear bottom object) :
    Rested start bottom (store object index value) :=
  storeApart_rests fun same => by have := clear same; omega

/-- The fields before the frame may be written, whosever they are. -/
theorem storeLow_rests {object value : Value} {index : Nat} (low : index < ContextField.frame) :
    Rested start bottom (store object index value) := storeApart_rests fun _ => .inl low

/-- So may everything but the values of an object. -/
theorem modifyRaw_rests {target : Value} {change : Body → Body}
    (raw : ∀ body, (change body).pointers? = body.pointers?) :
    Rested start bottom (modifyHeap (·.updateBody target change)) :=
  maintains_modify fun machine rests => by
    refine rests.withHeap (Heap.consistent_update rests.consistent _ _)
      (rests.slots.of_pointers ?_)
    by_cases same : target = start.registers.activeContext
    · have found : (machine.heap.updateBody target change).get? target = _ :=
        machine.heap.get?_update_same target _
      rw [← same, Heap.pointers, Heap.object, found, Heap.pointers, Heap.object]
      cases machine.heap.get? target with
      | none => rfl
      | some owner =>
        simp only [Option.map_some, bind, Except.bind, HeapObject.pointers?, raw]
    · have found : (machine.heap.updateBody target change).get? start.registers.activeContext
          = machine.heap.get? start.registers.activeContext :=
        machine.heap.get?_update_other same _
      rw [Heap.pointers, Heap.object, found, Heap.pointers, Heap.object]

/-- A new object is not the active context. -/
theorem registerApart_rests {object : HeapObject} :
    Maintains (start.Rests bottom) (register object) fun value =>
      value ≠ start.registers.activeContext :=
  fun machine rests => (ensures_onHeap machine _).mono <| by
    rintro _ _ ⟨rooted, registered, rfl⟩
    obtain ⟨heap, slot, hash, rfl, survives, -, places⟩ :=
      HeapM.register_cases rests.consistent registered
    exact (rests.of_survives survives).of_places places

@[grind ←]
theorem register_rests {object : HeapObject} : Rested start bottom (register object) :=
  registerApart_rests.rested

theorem instantiateApart_rests {species nil : Value} {size : Nat} :
    Maintains (start.Rests bottom) (onHeap (HeapM.instantiate species size nil)) fun value =>
      value ≠ start.registers.activeContext := by
  rw [HeapM.instantiate, onHeap_read]
  refine Maintains.bind readHeap_rests fun description _ => ?_
  cases description.int? with
  | none =>
    intro _ _ _ _ stopped
    cases stopped
  | some bits => exact registerApart_rests

@[grind ←]
theorem instantiate_rests {species nil : Value} {size : Nat} :
    Rested start bottom (onHeap (HeapM.instantiate species size nil)) :=
  instantiateApart_rests.rested

@[grind ←]
theorem copy_rests {object : Value} : Rested start bottom (onHeap (HeapM.copy object)) := by
  rw [HeapM.copy, onHeap_read]
  exact readHeap_rests.bind fun _ => register_rests

theorem collect_rests {change : Rooted Registers → Rooted Registers}
    (survives : ∀ rooted : Rooted Registers, rooted.heap.Consistent →
      rooted.Survives (change rooted)) : Rested start bottom (collect change) :=
  maintains_modify fun _ rests => rests.of_survives (survives _ rests.consistent)

/-! ## The stack and the fields of contexts -/

@[grind ←]
theorem operand_rests {depth : Nat} : Rested start bottom (operand depth) := by
  grind [operand]

@[grind ←]
theorem top_rests : Rested start bottom top := operand_rests

theorem copyOperands_rests {target : Value} (clear : start.Clear bottom target)
    {count index : Nat} : Rested start bottom (copyOperands target count index) := by
  induction count generalizing index with
  | zero => exact .pure
  | succ count induction =>
    exact operand_rests.bind fun _ => .andThen (store_rests clear) induction

theorem drop_carries {machine : Machine} (carries : start.Carries bottom machine) (count : Nat) :
    (drop count).Ensures machine fun _ after =>
      start.Carries bottom after ∧
      after.registers = { machine.registers with sp := machine.registers.sp - count } := by
  refine (ensures_drop machine count).mono ?_
  rintro _ _ rfl
  exact ⟨⟨carries.toStands.of_same rfl rfl rfl, fun inside =>
    Nat.lt_of_le_of_lt (Nat.sub_le _ _) (carries.fits inside)⟩, rfl⟩

/-- A value may be pushed above what lies in the frame. -/
theorem push_carries {machine : Machine} (stands : start.Stands bottom machine) (value : Value)
    (above : bottom ≤ machine.registers.sp) :
    (push value).Ensures machine fun _ after =>
      start.Carries bottom after ∧
      after.registers = { machine.registers with sp := machine.registers.sp + 1 } := by
  refine (ensures_push machine value).mono ?_
  rintro _ _ ⟨held, rfl⟩
  have slots := stands.slots.setField value
    (fun _ => .inr (Nat.lt_succ_of_le above) : machine.registers.activeContext = _ → _)
  exact ⟨⟨⟨Heap.consistent_update stands.consistent _ _, stands.active, stands.specials, slots⟩,
    fun _ => Heap.lt_pointerCount_of_fetch held⟩, rfl⟩

@[grind ←]
theorem encodePc_rests {method : Value} {pc : Nat} :
    Rested start bottom (encodePc method pc) := by
  grind [encodePc]

@[grind ←]
theorem homeOf_rests {context : Value} : Rested start bottom (homeOf context) := by
  grind [homeOf]

end Run

end Smalltalk

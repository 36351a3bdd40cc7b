import Smalltalk.Machine.Context
import Smalltalk.Proofs.Machine.Evaluation

namespace Smalltalk

/-! A context that is left keeps where to go on. Loading it again brings back the
registers as they were, as long as it, its home and its method are left alone. -/

namespace Heap

variable {heap before after : Heap} {object : Value} {index : Nat}

/-! ## What depends on one object only -/

theorem pointers_congr (same : after.get? object = before.get? object) :
    after.pointers object = before.pointers object := by
  rw [pointers, pointers, Heap.object, Heap.object, same]

theorem fetch_congr (same : after.get? object = before.get? object) (index : Nat) :
    after.fetch object index = before.fetch object index := by
  rw [fetch, fetch, pointers_congr same]

theorem fetchInt_congr (same : after.get? object = before.get? object) (index : Nat) :
    after.fetchInt object index = before.fetchInt object index := by
  rw [fetchInt, fetchInt, fetch_congr same]

theorem methodHeader?_congr (same : after.get? object = before.get? object) :
    after.methodHeader? object = before.methodHeader? object := by
  rw [methodHeader?, methodHeader?, Heap.object, Heap.object, same]

theorem fetchInt_of_fetch {value : Value} {n : Int} (found : heap.fetch object index = .ok value)
    (known : value.int? = some n) : heap.fetchInt object index = .ok n := by
  rw [fetchInt, found]
  simp only [bind, Except.bind, known]

/-- The header is the first literal of a method. -/
theorem methodHeader?_setField {method value : Value} (later : 0 < index) :
    (heap.setField object index value).methodHeader? method = heap.methodHeader? method := by
  by_cases same : object = method
  · subst same
    have written := heap.get?_update_same object fun object => { object with
      body := object.body.mapPointers (·.setIfInBounds index value) }
    rw [methodHeader?, methodHeader?, Heap.object, Heap.object, setField, updateBody, written]
    cases heap.get? object with
    | none => rfl
    | some owner =>
      obtain ⟨species, format, hash, body⟩ := owner
      cases body with
      | method literals bytecode =>
        have first : (literals.setIfInBounds index value)[0]? = literals[0]? :=
          Array.getElem?_setIfInBounds_ne later.ne'
        simp [HeapObject.methodHeader?, Body.mapPointers, first, bind, Except.bind]
      | _ => rfl
  · exact methodHeader?_congr (heap.get?_update_other same _)

/-- The heap after the counters of a context have been written. -/
def withCounters (heap : Heap) (context pc depth : Value) : Heap :=
  (heap.setField context ContextField.pc pc).setField context ContextField.stackPointer depth

section

variable {context other pc depth : Value}

theorem get?_withCounters (different : other ≠ context) :
    (heap.withCounters context pc depth).get? other = heap.get? other :=
  (get?_update_other _ different.symm _).trans (get?_update_other _ different.symm _)

theorem fetch_withCounters (notPc : index ≠ ContextField.pc)
    (notDepth : index ≠ ContextField.stackPointer) :
    (heap.withCounters context pc depth).fetch other index = heap.fetch other index :=
  (fetch_setField_other (.inr notDepth.symm)).trans (fetch_setField_other (.inr notPc.symm))

theorem methodHeader?_withCounters (method : Value) :
    (heap.withCounters context pc depth).methodHeader? method = heap.methodHeader? method :=
  (methodHeader?_setField (by decide)).trans (methodHeader?_setField (by decide))

theorem size_setField (object : Value) (index : Nat) (value other : Value) :
    ((heap.setField object index value).pointers other).map Array.size
      = (heap.pointers other).map Array.size := by
  by_cases same : object = other
  · subst same
    rw [pointers_setField_same]
    cases heap.pointers object <;> simp [Except.map]
  · rw [pointers_setField_other same]

theorem size_withCounters (other : Value) :
    ((heap.withCounters context pc depth).pointers other).map Array.size
      = (heap.pointers other).map Array.size :=
  (size_setField ..).trans (size_setField ..)

end

/-! ## What a context keeps -/

/-- The home of a context: what a block context has for it, or the context itself. -/
def HomeOf (heap : Heap) (context home : Value) : Prop :=
  ∃ kept, heap.fetch context ContextField.method = .ok kept ∧
    if kept.isSmall then heap.fetch context BlockField.home = .ok home else home = context

/-- What a context keeps while it is not active. -/
structure Waits (heap : Heap) (context home method receiver : Value) (pc sp : Nat) : Prop where
  homeOf : heap.HomeOf context home
  runs : heap.fetch home ContextField.method = .ok method
  receives : heap.fetch home ContextField.receiver = .ok receiver
  next : ∃ header, heap.methodHeader? method = .ok (some header) ∧
    heap.fetchInt context ContextField.pc = .ok (pc + header.firstPc)
  depth : heap.fetchInt context ContextField.stackPointer
    = .ok ((sp : Int) - (ContextField.frame - 1 : Nat))

variable {context home method receiver : Value} {pc sp : Nat}

theorem HomeOf.transfer (known : before.HomeOf context home)
    (method : after.fetch context ContextField.method = before.fetch context ContextField.method)
    (block : after.fetch context BlockField.home = before.fetch context BlockField.home) :
    after.HomeOf context home := by
  rcases known with ⟨kept, found, rest⟩
  refine ⟨kept, method.trans found, ?_⟩
  rw [block]
  exact rest

theorem Waits.transfer (waits : before.Waits context home method receiver pc sp)
    (sameContext : after.get? context = before.get? context)
    (sameHome : after.get? home = before.get? home)
    (sameMethod : after.get? method = before.get? method) :
    after.Waits context home method receiver pc sp where
  homeOf := waits.homeOf.transfer (fetch_congr sameContext _) (fetch_congr sameContext _)
  runs := (fetch_congr sameHome _).trans waits.runs
  receives := (fetch_congr sameHome _).trans waits.receives
  next := by
    rcases waits.next with ⟨header, known, kept⟩
    exact ⟨header, (methodHeader?_congr sameMethod).trans known,
      (fetchInt_congr sameContext _).trans kept⟩
  depth := (fetchInt_congr sameContext _).trans waits.depth

end Heap

namespace Run

variable {machine : Machine} {context home method receiver : Value} {pc sp : Nat}

theorem homeOf_ok (known : machine.heap.HomeOf context home) :
    homeOf context machine = .ok home machine := by
  rcases known with ⟨kept, found, rest⟩
  rw [homeOf, bind_ok (fetch_ok found)]
  split at rest
  · rename_i small
    rw [if_pos small, fetch_ok rest]
  · rename_i isObject
    rw [if_neg isObject, rest]
    rfl

theorem methodHeader_ok {header : MethodHeader}
    (known : machine.heap.methodHeader? method = .ok (some header)) :
    methodHeader method machine = .ok header machine := by
  rw [methodHeader, bind_ok (readHeap_ok known)]
  rfl

theorem methodHeader_eq_ok {header : MethodHeader} {after : Machine}
    (ended : methodHeader method machine = .ok header after) :
    machine.heap.methodHeader? method = .ok (some header) ∧ after = machine := by
  rw [methodHeader] at ended
  cases known : machine.heap.methodHeader? method with
  | error error =>
    rw [bind_error (readHeap_error known)] at ended
    cases ended
  | ok found =>
    rw [bind_ok (readHeap_ok known)] at ended
    cases found with
    | none => cases ended
    | some found =>
      cases ended
      exact ⟨rfl, rfl⟩

theorem encodePc_ok {header : MethodHeader}
    (known : machine.heap.methodHeader? method = .ok (some header)) (pc : Nat) :
    encodePc method pc machine = .ok (.ofWrapped (pc + header.firstPc)) machine := by
  rw [encodePc, bind_ok (methodHeader_ok known)]
  rfl

theorem loadContext_of_waits
    (waits : machine.heap.Waits context home method receiver pc sp) :
    loadContext context machine = .ok () { machine with
      registers := { machine.registers with
        pc, sp, activeContext := context, homeContext := home, method, receiver } } := by
  rcases waits.next with ⟨header, known, kept⟩
  have depth : fetchInt context ContextField.stackPointer machine
      = .ok ((sp : Int) - (ContextField.frame - 1 : Nat)) machine := readHeap_ok waits.depth
  have encoded : fetchInt context ContextField.pc machine = .ok (pc + header.firstPc) machine :=
    readHeap_ok kept
  have decoded : decodePc method (pc + header.firstPc) machine = .ok pc machine := by
    rw [decodePc, bind_ok (methodHeader_ok known)]
    have same : (pc : Int) + header.firstPc - header.firstPc = pc := by omega
    simp only [same]
    rw [if_neg (by omega)]
    rfl
  rw [loadContext, bind_ok (homeOf_ok waits.homeOf), bind_ok (fetch_ok waits.runs),
    bind_ok (fetch_ok waits.receives), bind_ok encoded, bind_ok depth, bind_ok decoded]
  have same : ((ContextField.frame : Int) - 1 + ((sp : Int) - (ContextField.frame - 1 : Nat))).toNat
      = sp := by
    simp only [ContextField.frame]
    omega
  simp only [same]
  rfl

/-! ## Loading and saving, whatever is kept -/

theorem methodHeader_knows (method : Value) :
    (methodHeader method).Ensures machine fun header after =>
      machine.heap.methodHeader? method = .ok (some header) ∧ after = machine :=
  fun _ _ ended => methodHeader_eq_ok ended

theorem encodePc_encodes (method : Value) (pc : Nat) :
    (encodePc method pc).Ensures machine fun encoded after =>
      (∃ header, machine.heap.methodHeader? method = .ok (some header) ∧
        encoded = .ofWrapped (pc + header.firstPc)) ∧ after = machine := by
  refine (methodHeader_knows method).bindTo fun header known => ?_
  exact .pure ⟨⟨header, known, rfl⟩, rfl⟩

theorem decodePc_decodes (method : Value) (encoded : Int) :
    (decodePc method encoded).Ensures machine fun pc after =>
      (∃ header, machine.heap.methodHeader? method = .ok (some header) ∧
        encoded = (pc : Nat) + header.firstPc) ∧ after = machine := by
  refine (methodHeader_knows method).bindTo fun header known => ?_
  dsimp only
  split
  · intro _ _ ended
    cases ended
  · exact .pure ⟨⟨header, known, by omega⟩, rfl⟩

theorem homeOf_knows (context : Value) :
    (homeOf context).Ensures machine fun home after =>
      machine.heap.HomeOf context home ∧ after = machine := by
  refine (ensures_fetch machine _ _).bindTo fun kept found => ?_
  split
  · rename_i small
    refine (ensures_fetch machine _ _).mono fun home _ ⟨held, same⟩ => ?_
    exact ⟨⟨kept, found, by rwa [if_pos small]⟩, same⟩
  · rename_i isObject
    exact .pure ⟨⟨kept, found, by rw [if_neg isObject]⟩, rfl⟩

/-- The registers are loaded with what the context has kept. -/
theorem loadContext_loads (context : Value) :
    (loadContext context).Ensures machine fun _ after =>
      ∃ home method receiver header pc depth,
        machine.heap.HomeOf context home ∧
        machine.heap.fetch home ContextField.method = .ok method ∧
        machine.heap.fetch home ContextField.receiver = .ok receiver ∧
        machine.heap.methodHeader? method = .ok (some header) ∧
        machine.heap.fetchInt context ContextField.pc = .ok ((pc : Nat) + header.firstPc) ∧
        machine.heap.fetchInt context ContextField.stackPointer = .ok depth ∧
        after = { machine with registers := { machine.registers with
          pc, sp := (ContextField.frame - 1 + depth).toNat, activeContext := context,
          homeContext := home, method, receiver } } := by
  refine (homeOf_knows context).bindTo fun home known => ?_
  refine (ensures_fetch machine _ _).bindTo fun method runs => ?_
  refine (ensures_fetch machine _ _).bindTo fun receiver receives => ?_
  refine (ensures_fetchInt machine _ _).bindTo fun encoded kept => ?_
  refine (ensures_fetchInt machine _ _).bindTo fun depth deep => ?_
  refine (decodePc_decodes method encoded).bindTo fun pc ⟨header, headed, same⟩ => ?_
  refine (ensures_modifyRegisters machine _).mono ?_
  rintro _ _ rfl
  exact ⟨home, method, receiver, header, pc, depth, known, runs, receives, headed,
    same ▸ kept, deep, rfl⟩

/-- Saving writes the counters of the active context. -/
theorem saveContext_writes :
    saveContext.Ensures machine fun _ after =>
      ∃ header pc, machine.heap.methodHeader? machine.registers.method = .ok (some header) ∧
        pc = .ofWrapped (machine.registers.pc + header.firstPc) ∧
        let depth := .ofWrapped (machine.registers.sp - (ContextField.frame - 1 : Nat))
        let heap := machine.heap.withCounters machine.registers.activeContext pc depth
        after = machine.withHeap heap ∧
          heap.fetch machine.registers.activeContext ContextField.pc = .ok pc ∧
          heap.fetch machine.registers.activeContext ContextField.stackPointer = .ok depth := by
  refine (ensures_getRegisters machine).bindExactly ?_
  refine (encodePc_encodes _ _).bindTo fun pc ⟨header, known, encoded⟩ => ?_
  refine (ensures_store machine _ _ _).bindTo fun _ first => ?_
  refine (ensures_store _ _ _ _).mono ?_
  rintro _ _ ⟨second, rfl⟩
  exact ⟨header, pc, known, encoded, rfl,
    (Heap.fetch_setField_other (.inr (by decide))).trans first, second⟩

end Run

namespace Value

variable {n : Int}

/-- An integer in the range of small integers is kept as it is. -/
theorem int?_ofInt (lower : SmallInt.minimum ≤ n) (upper : n ≤ SmallInt.maximum) :
    (ofInt n).int? = some n := by
  have found : SmallInt.ofInt? n = some ⟨n, lower, upper⟩ := SmallInt.ofInt?_eq_some.mpr rfl
  simp [ofInt, found, int?]

theorem int?_ofWrapped (lower : SmallInt.minimum ≤ n) (upper : n ≤ SmallInt.maximum) :
    (ofWrapped n).int? = some n := by
  rw [ofWrapped_eq_ofInt lower upper, int?_ofInt lower upper]

end Value

namespace Machine

/-- Whether the registers are those of the active context: its home, the method and
the receiver of that, and a program counter and a stack pointer that contexts can
keep. The stack pointer lies within the context. -/
structure Agrees (machine : Machine) : Prop where
  homeOf : machine.heap.HomeOf machine.registers.activeContext machine.registers.homeContext
  runs : machine.heap.fetch machine.registers.homeContext ContextField.method
    = .ok machine.registers.method
  receives : machine.heap.fetch machine.registers.homeContext ContextField.receiver
    = .ok machine.registers.receiver
  next : ∃ header, machine.heap.methodHeader? machine.registers.method = .ok (some header) ∧
    machine.registers.pc + header.firstPc ≤ SmallInt.maximum
  inside : ∃ fields, machine.heap.pointers machine.registers.activeContext = .ok fields ∧
    machine.registers.sp < fields.size
  fits : machine.registers.sp ≤ SmallInt.maximum

/-- Agreement depends on the registers of the frame and on three objects. -/
theorem Agrees.transfer {machine after : Machine} (agrees : machine.Agrees)
    (activeContext : after.registers.activeContext = machine.registers.activeContext)
    (homeContext : after.registers.homeContext = machine.registers.homeContext)
    (method : after.registers.method = machine.registers.method)
    (receiver : after.registers.receiver = machine.registers.receiver)
    (pc : after.registers.pc = machine.registers.pc)
    (sp : after.registers.sp ≤ machine.registers.sp)
    (same : ∀ value ∈ [machine.registers.activeContext, machine.registers.homeContext,
      machine.registers.method], after.heap.get? value = machine.heap.get? value) :
    after.Agrees where
  homeOf := by
    rw [activeContext, homeContext]
    exact agrees.homeOf.transfer (Heap.fetch_congr (same _ (by simp)) _)
      (Heap.fetch_congr (same _ (by simp)) _)
  runs := by
    rw [homeContext, method, Heap.fetch_congr (same _ (by simp))]
    exact agrees.runs
  receives := by
    rw [homeContext, receiver, Heap.fetch_congr (same _ (by simp))]
    exact agrees.receives
  next := by
    rw [method, pc, Heap.methodHeader?_congr (same _ (by simp))]
    exact agrees.next
  inside := by
    rcases agrees.inside with ⟨fields, readable, below⟩
    rw [activeContext, Heap.pointers_congr (same _ (by simp))]
    exact ⟨fields, readable, lt_of_le_of_lt sp below⟩
  fits := by
    have bounded := agrees.fits
    omega

end Machine

namespace Run

variable {machine : Machine}

/-- Saving makes the active context wait. -/
theorem saveContext_waits (agrees : machine.Agrees) :
    saveContext.Ensures machine fun _ after => ∃ pc depth,
      let heap := machine.heap.withCounters machine.registers.activeContext pc depth
      after = { machine with heap } ∧
        heap.Waits machine.registers.activeContext machine.registers.homeContext
          machine.registers.method machine.registers.receiver machine.registers.pc
          machine.registers.sp := by
  rcases agrees.next with ⟨header, known, bounded⟩
  refine saveContext_writes.mono ?_
  rintro _ _ ⟨found, pc, reads, encoded, rfl, atPc, atDepth⟩
  obtain rfl : header = found := Option.some.inj (Except.ok.inj (known.symm.trans reads))
  refine ⟨_, _, rfl, ?_⟩
  have firstPc : 0 ≤ header.firstPc := by
    rw [MethodHeader.firstPc]
    omega
  have fits := agrees.fits
  simp only [SmallInt.maximum] at bounded fits
  refine
    { homeOf := agrees.homeOf.transfer (Heap.fetch_withCounters (by decide) (by decide))
        (Heap.fetch_withCounters (by decide) (by decide))
      runs := (Heap.fetch_withCounters (by decide) (by decide)).trans agrees.runs
      receives := (Heap.fetch_withCounters (by decide) (by decide)).trans agrees.receives
      next := ⟨header, (Heap.methodHeader?_withCounters _).trans known, ?_⟩
      depth := ?_ }
  · refine Heap.fetchInt_of_fetch (atPc.trans (congrArg _ encoded)) ?_
    apply Value.int?_ofWrapped <;> simp only [SmallInt.minimum, SmallInt.maximum] <;> omega
  · refine Heap.fetchInt_of_fetch atDepth ?_
    apply Value.int?_ofWrapped <;>
      simp only [SmallInt.minimum, SmallInt.maximum, ContextField.frame] <;> omega

end Run

end Smalltalk

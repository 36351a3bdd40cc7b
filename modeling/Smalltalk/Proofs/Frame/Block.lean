import Smalltalk.Proofs.Frame.Return
import Smalltalk.Proofs.Machine.Lookup
import Smalltalk.Proofs.Primitive.Performs

namespace Smalltalk

/-! A block knows how many arguments it takes, where its code starts and which context it
belongs to. Making one takes these from the running method and from the context on the
stack; evaluating it makes it the active context, with the arguments in its frame. -/

namespace Heap

variable {heap before after : Heap} {species block home method receiver : Value}
  {count start : Nat}

theorem fetchInt_eq_ok_iff {object : Value} {index : Nat} {n : Int} :
    heap.fetchInt object index = .ok n ↔
      ∃ value, heap.fetch object index = .ok value ∧ value.int? = some n := by
  rw [fetchInt, bind_eq_ok_iff]
  refine exists_congr fun value => and_congr Iff.rfl ?_
  cases value.int? <;> simp

theorem holds_of_get? {value : Value} {object : HeapObject}
    (here : heap.get? value = some object) : heap.Holds value := by
  cases value with
  | small n => trivial
  | object slot => exact live_of_cell? here

/-- What has fields is in the heap. -/
theorem holds_of_fetch {object value : Value} {index : Nat}
    (found : heap.fetch object index = .ok value) : heap.Holds object := by
  rcases mem_references_of_fetch found with ⟨owner, here, -⟩
  exact holds_of_get? here

theorem exists_fetch_of_lt_pointerCount {object value : Value} {index place : Nat}
    (found : heap.fetch object index = .ok value) (inside : place < heap.pointerCount object) :
    ∃ other, heap.fetch object place = .ok other := by
  rcases fetch_eq_ok_iff.mp found with ⟨fields, readable, -⟩
  rw [pointerCount_of_pointers readable] at inside
  exact ⟨_, fetch_eq_ok_iff.mpr ⟨fields, readable, Array.getElem?_eq_getElem inside⟩⟩

/-- An object of the class of blocks, which holds values and no code. -/
def IsBlock (heap : Heap) (species block : Value) : Prop :=
  ∃ object fields, heap.get? block = some object ∧ object.species = species ∧
    object.body = .pointers fields

theorem IsBlock.setField (isBlock : heap.IsBlock species block) (object : Value) (index : Nat)
    (value : Value) : (heap.setField object index value).IsBlock species block := by
  rcases isBlock with ⟨owner, fields, here, kind, body⟩
  by_cases same : object = block
  · subst same
    have written := heap.get?_update_same object fun object => { object with
      body := object.body.mapPointers (·.setIfInBounds index value) }
    rw [here, Option.map_some, body] at written
    exact ⟨_, _, written, kind, rfl⟩
  · exact ⟨owner, fields, (heap.get?_update_other same _).trans here, kind, body⟩

theorem IsBlock.isObject (isBlock : heap.IsBlock species block) : block.isSmall = false := by
  rcases isBlock with ⟨owner, fields, here, -⟩
  cases block with
  | small n => cases here
  | object slot => rfl

theorem IsBlock.extent (isBlock : heap.IsBlock species block) :
    (heap.pointers block).map Array.size = .ok (heap.pointerCount block) := by
  rcases isBlock with ⟨owner, fields, here, -, body⟩
  have readable : heap.pointers block = .ok fields :=
    pointers_eq_ok_iff.mpr ⟨owner, here, by rw [HeapObject.pointers?, body]; rfl⟩
  rw [readable, pointerCount, here]
  simp [Except.map, HeapObject.pointerCount, Body.pointerCount, body, Body.pointers?]

/-- A method is no block. -/
theorem IsBlock.ne_of_methodHeader? (isBlock : heap.IsBlock species block) {header : MethodHeader}
    (known : heap.methodHeader? method = .ok (some header)) : method ≠ block := by
  rintro rfl
  rcases isBlock with ⟨owner, fields, here, -, body⟩
  rw [methodHeader?, Heap.object_eq_ok_iff.mpr here] at known
  simp [bind, Except.bind, pure, Except.pure, HeapObject.methodHeader?, body] at known

/-- What a block knows: how many arguments it takes, which context it belongs to, and where
in the method of that context its code starts. -/
structure BlockOf (heap : Heap) (species block home method receiver : Value)
    (count start : Nat) : Prop where
  isBlock : heap.IsBlock species block
  takes : heap.fetchInt block BlockField.argumentCount = .ok count
  belongs : heap.fetch block BlockField.home = .ok home
  runs : heap.fetch home ContextField.method = .ok method
  receives : heap.fetch home ContextField.receiver = .ok receiver
  starts : ∃ header, heap.methodHeader? method = .ok (some header) ∧
    heap.fetchInt block BlockField.initialPc = .ok (start + header.firstPc)

namespace BlockOf

/-- The home of a block is its home as a context. -/
theorem homeOf (known : heap.BlockOf species block home method receiver count start) :
    heap.HomeOf block home := by
  rcases fetchInt_eq_ok_iff.mp known.takes with ⟨value, found, small⟩
  refine ⟨value, found, ?_⟩
  cases value with
  | small n => exact known.belongs
  | object slot => cases small

/-- A context that has a method is no block. -/
theorem ne_of_runs (known : heap.BlockOf species block home method receiver count start)
    {context running : Value} {header : MethodHeader}
    (runs : heap.fetch context ContextField.method = .ok running)
    (isMethod : heap.methodHeader? running = .ok (some header)) : context ≠ block := by
  rintro rfl
  rcases fetchInt_eq_ok_iff.mp known.takes with ⟨value, found, small⟩
  cases found.symm.trans runs
  rcases isObject_of_methodHeader? isMethod with ⟨slot, rfl⟩
  cases small

/-- A block that is rewound and has its arguments on its stack waits to be entered. -/
theorem waits (known : heap.BlockOf species block home method receiver count start)
    (rewound : heap.fetchInt block ContextField.pc = heap.fetchInt block BlockField.initialPc)
    (depth : heap.fetchInt block ContextField.stackPointer = .ok count) :
    heap.Waits block home method receiver start (ContextField.frame - 1 + count) where
  homeOf := known.homeOf
  runs := known.runs
  receives := known.receives
  next := by
    rcases known.starts with ⟨header, isMethod, initial⟩
    exact ⟨header, isMethod, rewound.trans initial⟩
  depth := by
    rw [depth]
    congr 1
    omega

/-- The number of arguments is a small integer. -/
theorem int?_ofInt (known : heap.BlockOf species block home method receiver count start) :
    (Value.ofInt count).int? = some (count : Int) := by
  rcases fetchInt_eq_ok_iff.mp known.takes with ⟨value, -, small⟩
  cases value with
  | small n =>
    have same : n.val = count := Option.some.inj small
    exact Value.int?_ofInt (same ▸ n.lower) (same ▸ n.upper)
  | object slot => cases small

/-- A context other than a block, its home and the method it runs are apart from the block. -/
theorem ne_of_waiting (known : heap.BlockOf species block home method receiver count start)
    {context itsHome running : Value} {header : MethodHeader} (apart : context ≠ block)
    (runs : heap.fetch itsHome ContextField.method = .ok running)
    (isMethod : heap.methodHeader? running = .ok (some header)) :
    ∀ value ∈ [context, itsHome, running], value ≠ block := by
  intro value member
  simp only [List.mem_cons, List.not_mem_nil, or_false] at member
  rcases member with rfl | rfl | rfl
  · exact apart
  · exact known.ne_of_runs runs isMethod
  · exact known.isBlock.ne_of_methodHeader? isMethod

theorem home_ne (known : heap.BlockOf species block home method receiver count start) :
    home ≠ block := by
  rcases known.starts with ⟨header, isMethod, -⟩
  exact known.ne_of_runs known.runs isMethod

theorem method_ne (known : heap.BlockOf species block home method receiver count start) :
    method ≠ block := by
  rcases known.starts with ⟨header, isMethod, -⟩
  exact known.isBlock.ne_of_methodHeader? isMethod

/-- A block goes on knowing what it knows while its own part of its fields, those of its
home and its method are left alone. -/
theorem transfer (known : before.BlockOf species block home method receiver count start)
    (isBlock : after.IsBlock species block)
    (own : ∀ index ∈ [BlockField.argumentCount, BlockField.initialPc, BlockField.home],
      after.fetch block index = before.fetch block index)
    (shared : ∀ index ∈ [ContextField.method, ContextField.receiver],
      after.fetch home index = before.fetch home index)
    (code : after.methodHeader? method = before.methodHeader? method) :
    after.BlockOf species block home method receiver count start where
  isBlock := isBlock
  takes := by
    rw [fetchInt, own _ (by simp), ← fetchInt]
    exact known.takes
  belongs := (own _ (by simp)).trans known.belongs
  runs := (shared _ (by simp)).trans known.runs
  receives := (shared _ (by simp)).trans known.receives
  starts := by
    rcases known.starts with ⟨header, isMethod, initial⟩
    refine ⟨header, code.trans isMethod, ?_⟩
    rw [fetchInt, own _ (by simp), ← fetchInt]
    exact initial

/-- The fields that change while contexts run are none of those. -/
theorem setField (known : heap.BlockOf species block home method receiver count start)
    {object value : Value} {index : Nat}
    (apart : index < ContextField.method ∨ ContextField.frame ≤ index)
    (code : object ≠ method ∨ 0 < index) :
    (heap.setField object index value).BlockOf species block home method receiver count start := by
  refine known.transfer (known.isBlock.setField ..) ?_ ?_ ?_
  · intro place member
    refine fetch_setField_other (.inr ?_)
    rintro rfl
    revert apart member
    simp only [List.mem_cons, List.not_mem_nil, or_false, ContextField.method,
      ContextField.frame, BlockField.argumentCount, BlockField.initialPc, BlockField.home]
    omega
  · intro place member
    refine fetch_setField_other (.inr ?_)
    rintro rfl
    revert apart member
    simp only [List.mem_cons, List.not_mem_nil, or_false, ContextField.method,
      ContextField.receiver, ContextField.frame]
    omega
  · rcases code with other | later
    · exact methodHeader?_congr (heap.get?_update_other other _)
    · exact methodHeader?_setField later

/-- Neither are the counters of another context. -/
theorem withCounters (known : heap.BlockOf species block home method receiver count start)
    (context pc depth : Value) :
    (heap.withCounters context pc depth).BlockOf species block home method receiver count start :=
  (known.setField (.inl (by decide)) (.inr (by decide))).setField (.inl (by decide))
    (.inr (by decide))

theorem waits_withCounters
    (known : heap.BlockOf species block home method receiver count start)
    (rewound : heap.fetchInt block ContextField.pc = heap.fetchInt block BlockField.initialPc)
    (deep : heap.fetchInt block ContextField.stackPointer = .ok count) {context : Value}
    (apart : context ≠ block) (pc depth : Value) :
    (heap.withCounters context pc depth).Waits block home method receiver start
      (ContextField.frame - 1 + count) := by
  have same := @get?_withCounters heap _ _ pc depth apart.symm
  exact (known.withCounters context pc depth).waits
    ((fetchInt_congr same _).trans (rewound.trans (fetchInt_congr same _).symm))
    ((fetchInt_congr same _).trans deep)

end BlockOf

end Heap

namespace Machine

variable {machine after : Machine}

theorem Anchors.fetched {object value : Value} {index : Nat} (anchored : machine.Anchors object)
    (found : machine.heap.fetch object index = .ok value) (held : machine.heap.Holds value) :
    machine.Anchors value := by
  intro next same
  rcases same with rfl
  rcases Heap.mem_references_of_fetch found with ⟨owner, here, member⟩
  cases object with
  | small n => cases here
  | object slot => exact .step (anchored slot rfl) here (Heap.mem_successors_iff.mpr member) held

/-- The registers lead to the active context and the running method. -/
theorem Agrees.anchors (agrees : machine.Agrees) :
    machine.Anchors machine.registers.activeContext ∧ machine.Anchors machine.registers.method := by
  rcases agrees.next with ⟨header, isMethod, -⟩
  rcases agrees.homeOf with ⟨kept, found, -⟩
  refine ⟨anchors_of_mem (by simp [Registers.values_forget]) (Heap.holds_of_fetch found), ?_⟩
  refine anchors_of_mem (by simp [Registers.values_forget]) ?_
  rcases Heap.isObject_of_methodHeader? isMethod with ⟨slot, same⟩
  rw [same] at isMethod ⊢
  exact Run.isSome_of_methodHeader? isMethod

/-- They lead to the home of a context on the stack. -/
theorem Operand.anchors_home {depth : Nat} {context home method : Value} (agrees : machine.Agrees)
    (onStack : machine.Operand depth context) (belongs : machine.heap.HomeOf context home)
    (runs : machine.heap.fetch home ContextField.method = .ok method) : machine.Anchors home := by
  rcases belongs with ⟨kept, found, rest⟩
  have anchored := agrees.anchors.1.fetched onStack.2 (Heap.holds_of_fetch found)
  split at rest
  · exact anchored.fetched rest (Heap.holds_of_fetch runs)
  · exact rest ▸ anchored

/-- How a machine comes out of the registration of an object: what its registers lead to is as
it was, and none of it is the new object. -/
structure Obtains (machine : Machine) (object : HeapObject) (value : Value) (after : Machine) :
    Prop where
  made : ∃ hash, after.heap.get? value = some { object with hash }
  flushed : Flushed machine.registers after.registers
  fresh : ∀ other, machine.Anchors other → other ≠ value
  same : ∀ other, machine.Anchors other → after.heap.get? other = machine.heap.get? other
  consistent : after.heap.Consistent
  apart : { after with heap := machine.heap, registers := machine.registers } = machine

end Machine

namespace Run

variable {machine : Machine}

theorem register_obtains (consistent : machine.heap.Consistent) (object : HeapObject) :
    (register object).Ensures machine (machine.Obtains object) := by
  refine (ensures_onHeap machine _).mono ?_
  rintro value _ ⟨rooted, registered, rfl⟩
  obtain ⟨heap, slot, hash, rfl, survives, -, places⟩ :=
    HeapM.register_cases consistent registered
  have kept {other : Nat} (anchored : machine.Anchors (.object other)) : heap.Live other :=
    survives.live_of_reaches (anchored other rfl)
  have different {other : Nat} (live : heap.Live other) : other ≠ slot := by
    rintro rfl
    exact places.dead live
  refine
    { made := ⟨hash, places.filled⟩
      flushed := survives.flushed
      fresh := ?_
      same := ?_
      consistent := places.consistent
      apart := rfl }
  · rintro _ anchored rfl
    exact different (kept anchored) rfl
  · intro other anchored
    cases other with
    | small n => rfl
    | object other =>
      have live := kept anchored
      exact (places.others other (different live)).trans (survives.cell other live)

/-- Answering a value puts it in place of the receiver and the arguments. -/
theorem succeed_replaces (count : Nat) (value : Value) :
    (succeed count value).Ensures machine fun answered after =>
      answered = true ∧
      after.heap.fetch after.registers.activeContext after.registers.sp = .ok value ∧
      after = { machine with
        heap := machine.heap.setField machine.registers.activeContext
          (machine.registers.sp - (count + 1) + 1) value
        registers.sp := machine.registers.sp - (count + 1) + 1 } :=
  (ensures_replace machine (count + 1) value).bind fun _ _ ended => .pure ⟨rfl, ended⟩

end Run

namespace Run

variable {machine : Machine} {species block : Value}

/-- Blocks remain blocks when fields are written. -/
theorem store_isBlock (object : Value) (index : Nat) (value : Value) :
    Maintains (fun machine => machine.heap.IsBlock species block) (store object index value)
      fun _ => True :=
  fun machine isBlock => (ensures_store machine object index value).mono <| by
    rintro _ _ ⟨-, rfl⟩
    exact ⟨isBlock.setField .., trivial⟩

/-- Write what a new block knows into its fields. -/
def fillBlock (block home initialPc number : Value) : Run Unit := do
  store block BlockField.initialPc initialPc
  store block ContextField.pc initialPc
  store block ContextField.stackPointer .zero
  store block BlockField.argumentCount number
  store block BlockField.home home

theorem fillBlock_fills (home initialPc number : Value) :
    (fillBlock block home initialPc number).Ensures machine fun _ after => ∃ heap,
      after = machine.withHeap heap ∧ machine.heap.Rewrites block heap ∧
      heap.fetch block BlockField.initialPc = .ok initialPc ∧
      heap.fetch block BlockField.argumentCount = .ok number ∧
      heap.fetch block BlockField.home = .ok home ∧
      heap.fetch block BlockField.caller = machine.heap.fetch block BlockField.caller := by
  refine (store_wrote _ _ _).bind ?_
  rintro _ _ ⟨first, rfl, initial⟩
  refine (store_wrote _ _ _).bind ?_
  rintro _ _ ⟨second, rfl, pc⟩
  refine (store_wrote _ _ _).bind ?_
  rintro _ _ ⟨third, rfl, depth⟩
  refine (store_wrote _ _ _).bind ?_
  rintro _ _ ⟨fourth, rfl, takes⟩
  refine (store_wrote _ _ _).mono ?_
  rintro _ _ ⟨fifth, rfl, belongs⟩
  simp only [Machine.withHeap_withHeap, Machine.heap_withHeap] at pc depth takes belongs ⊢
  refine ⟨fifth, rfl, ?_, ?_, ?_, belongs.written, ?_⟩
  · exact (((initial.toRewrites.trans pc.toRewrites).trans depth.toRewrites).trans
      takes.toRewrites).trans belongs.toRewrites
  · rw [belongs.elsewhere _ (by decide), takes.elsewhere _ (by decide),
      depth.elsewhere _ (by decide), pc.elsewhere _ (by decide), initial.written]
  · rw [belongs.elsewhere _ (by decide), takes.written]
  · rw [belongs.elsewhere _ (by decide), takes.elsewhere _ (by decide),
      depth.elsewhere _ (by decide), pc.elsewhere _ (by decide),
      initial.elsewhere _ (by decide)]

theorem fillBlock_isBlock (other home initialPc number : Value) :
    Maintains (fun machine => machine.heap.IsBlock species block)
      (fillBlock other home initialPc number) fun _ => True := by
  refine (store_isBlock _ _ _).bind fun _ _ => (store_isBlock _ _ _).bind fun _ _ => ?_
  refine (store_isBlock _ _ _).bind fun _ _ => (store_isBlock _ _ _).bind fun _ _ => ?_
  exact store_isBlock _ _ _

/-- A blank block as large as its home knows what was filled in. -/
theorem fillBlock_knows {home method initialPc number : Value} {header : MethodHeader}
    {count start : Nat} (isBlock : machine.heap.IsBlock species block) (notHome : home ≠ block)
    (notMethod : method ≠ block)
    (extent : machine.heap.pointerCount block = machine.heap.pointerCount home)
    (runs : machine.heap.fetch home ContextField.method = .ok method)
    (isMethod : machine.heap.methodHeader? method = .ok (some header))
    (takes : number.int? = some (count : Int))
    (begins : initialPc.int? = some ((start : Int) + header.firstPc)) :
    (fillBlock block home initialPc number).Ensures machine fun _ after => ∃ heap receiver,
      after = machine.withHeap heap ∧ BlockField.home < machine.heap.pointerCount block ∧
      heap.BlockOf species block home method receiver count start ∧
      heap.fetch block BlockField.caller = machine.heap.fetch block BlockField.caller := by
  refine ((fillBlock_fills home initialPc number).and
    (fillBlock_isBlock _ _ _ _ _ isBlock)).mono ?_
  rintro _ _ ⟨⟨filled, rfl, rewrites, starts, counted, homed, idle⟩, stillBlock, -⟩
  have room : BlockField.home < machine.heap.pointerCount block := by
    rcases Heap.fetch_eq_ok_iff.mp homed with ⟨fields, readable, inside⟩
    have size := rewrites.size.trans isBlock.extent
    simp only [readable, Except.map, Except.ok.injEq] at size
    exact size ▸ (Array.getElem?_eq_some_iff.mp inside).1
  rcases Heap.exists_fetch_of_lt_pointerCount runs (extent ▸ room) with ⟨receiver, received⟩
  have ofHome (index : Nat) : filled.fetch home index = machine.heap.fetch home index :=
    Heap.fetch_congr (rewrites.others home notHome) index
  refine ⟨filled, receiver, rfl, room, ?_, idle⟩
  exact
    { isBlock := stillBlock
      takes := Heap.fetchInt_of_fetch counted takes
      belongs := homed
      runs := (ofHome _).trans runs
      receives := (ofHome _).trans received
      starts := by
        have code := Heap.methodHeader?_congr (rewrites.others method notMethod)
        exact ⟨header, code.trans isMethod, Heap.fetchInt_of_fetch starts begins⟩ }

end Run

namespace Machine

/-- What a block knows, for the class of blocks of a machine. -/
abbrev Knows (machine : Machine) (block home method receiver : Value) (count start : Nat) : Prop :=
  machine.heap.BlockOf machine.registers.specials.blockContextClass block home method receiver
    count start

/-- Nobody waits for a block. -/
abbrev Idle (machine : Machine) (block : Value) : Prop :=
  machine.heap.fetch block BlockField.caller = .ok machine.registers.specials.nil

/-- Somebody waits for a block. -/
def Busy (machine : Machine) (block : Value) : Prop :=
  ∃ caller, machine.heap.fetch block BlockField.caller = .ok caller ∧
    caller ≠ machine.registers.specials.nil

section

variable {machine after : Machine} {block home method receiver : Value} {count start : Nat}

theorem Knows.of_specials (specials : after.registers.specials = machine.registers.specials)
    (known : after.heap.BlockOf machine.registers.specials.blockContextClass block home method
      receiver count start) : after.Knows block home method receiver count start := by
  rw [Knows, specials]
  exact known

theorem Idle.of_specials (specials : after.registers.specials = machine.registers.specials)
    (nobody : after.heap.fetch block BlockField.caller = .ok machine.registers.specials.nil) :
    after.Idle block := by
  rw [Idle, specials]
  exact nobody

end

/-- How a machine comes out of the creation of a block: the new block lies on the stack in place
of the context and the number of arguments, and its code starts behind the jump that follows. -/
structure Creates (machine : Machine) (block home receiver : Value) (count : Nat)
    (after : Machine) : Prop where
  top : after.Operand 0 block
  active : after.registers.activeContext = machine.registers.activeContext
  depth : after.registers.sp = machine.registers.sp - 1
  specials : after.registers.specials = machine.registers.specials
  apart : after.registers.activeContext ≠ block
  knows : after.Knows block home machine.registers.method receiver count
    (machine.registers.pc + 2)
  idle : after.Idle block

/-- How a machine comes out of the evaluation of a block: the block is active at its start, with
the arguments in its frame, and who evaluated it waits for an answer. -/
structure Evaluates (machine : Machine) (block home method receiver : Value) (count start : Nat)
    (after : Machine) : Prop where
  active : after.registers.activeContext = block
  atHome : after.registers.homeContext = home
  runs : after.registers.method = method
  receives : after.registers.receiver = receiver
  next : after.registers.pc = start
  depth : after.registers.sp = ContextField.frame - 1 + count
  specials : after.registers.specials = machine.registers.specials
  arguments : ∀ place < count, after.heap.fetch block (ContextField.frame + place)
    = machine.heap.fetch machine.registers.activeContext
        (machine.registers.sp - (count - 1 - place))
  caller : after.heap.fetch block BlockField.caller = .ok machine.registers.activeContext
  waits : after.heap.Waits machine.registers.activeContext machine.registers.homeContext
    machine.registers.method machine.registers.receiver machine.registers.pc
    (machine.registers.sp - (count + 1))
  elsewhere : ∀ index, index ≠ ContextField.pc → index ≠ ContextField.stackPointer →
    after.heap.fetch machine.registers.activeContext index
      = machine.heap.fetch machine.registers.activeContext index
  knows : after.Knows block home method receiver count start

end Machine

namespace Reply

open Run

variable {machine : Machine}

theorem blockCopy_creates {context home number : Value} {count : Nat}
    (consistent : machine.heap.Consistent) (agrees : machine.Agrees)
    (operands : ContextField.frame + 1 ≤ machine.registers.sp)
    (onContext : machine.Operand 1 context) (counted : machine.Operand 0 number)
    (small : number.int? = some (count : Int)) (belongs : machine.heap.HomeOf context home)
    (runs : machine.heap.fetch home ContextField.method = .ok machine.registers.method)
    (fits : ∀ header, machine.heap.methodHeader? machine.registers.method = .ok (some header) →
      machine.registers.pc + 2 + header.firstPc ≤ SmallInt.maximum) :
    (blockCopy 1).Ensures machine fun answered after => answered = true →
      ∃ block receiver, machine.Creates block home receiver count after := by
  rw [blockCopy, if_neg (not_not.mpr rfl)]
  refine .bindOk (operand_eq_ok onContext) (.bindOk (operand_eq_ok counted) ?_)
  refine .bindOk get_apply ?_
  split
  · exact .pure (by simp)
  refine .bindOk (homeOf_ok belongs) (.bindOk (modifyRegisters_apply _) ?_)
  refine .bindOk getRegisters_apply (.bindOk getHeap_apply ?_)
  dsimp only
  rcases agrees.next with ⟨header, isMethod, -⟩
  let start : Machine := { machine with registers.reclaimable := 0 }
  have agreesThere : start.Agrees :=
    agrees.transfer rfl rfl rfl rfl rfl (le_refl _) fun _ _ => rfl
  have ⟨active, method⟩ := agreesThere.anchors
  have atHome : start.Anchors home := Machine.Operand.anchors_home agreesThere onContext belongs runs
  refine (@register_obtains start consistent _).bind fun block fresh obtains => ?_
  have sameHome := obtains.same home atHome
  have isMethodHere := (Heap.methodHeader?_congr (obtains.same _ method)).trans isMethod
  refine .bindOk (encodePc_ok isMethodHere _) ?_
  generalize initial : Value.ofWrapped
    ((machine.registers.pc + 2 : Nat) + header.firstPc) = initialPc
  have begins : initialPc.int? = some ((machine.registers.pc + 2 : Nat) + header.firstPc) := by
    have bounds := header.firstPc_bounds
    have within := fits header isMethod
    rw [← initial]
    refine Value.int?_ofWrapped ?_ ?_
    · simp only [SmallInt.minimum]
      omega
    · push_cast
      exact within
  have split : (do
      store block BlockField.initialPc initialPc
      store block ContextField.pc initialPc
      store block ContextField.stackPointer .zero
      store block BlockField.argumentCount number
      store block BlockField.home home
      succeed 1 block) = fillBlock block home initialPc number >>= fun _ => succeed 1 block := by
    simp only [fillBlock, bind_assoc]
  rw [split]
  rcases obtains.made with ⟨hash, made⟩
  have extent : fresh.heap.pointerCount block = fresh.heap.pointerCount home := by
    have size : fresh.heap.pointerCount home = machine.heap.pointerCount home := by
      rw [Heap.pointerCount, sameHome, ← Heap.pointerCount]
    rw [size, Heap.pointerCount, made]
    exact Array.size_replicate
  refine (fillBlock_knows ⟨_, _, made, rfl, rfl⟩ (obtains.fresh home atHome)
    (obtains.fresh _ method) extent ((Heap.fetch_congr sameHome _).trans runs) isMethodHere small
    begins).bind ?_
  rintro _ _ ⟨filled, receiver, rfl, room, known, idle⟩
  refine (succeed_replaces 1 block).mono ?_
  rintro _ _ ⟨-, pushed, rfl⟩ -
  have forgotten := Registers.forget_of_flushed obtains.flushed
  rcases Registers.frame_of_forget forgotten with ⟨context, -, -, -, -, sp, -⟩
  have specials : fresh.registers.specials = machine.registers.specials := by
    have kept := congrArg Registers.specials forgotten
    exact kept
  simp only [ContextField.frame] at operands
  have slot : fresh.registers.sp - (1 + 1) + 1 = machine.registers.sp - 1 := by
    rw [sp]
    change machine.registers.sp - (1 + 1) + 1 = _
    omega
  have high : ContextField.frame ≤ machine.registers.sp - 1 := by
    simp only [ContextField.frame]
    omega
  have notActive := obtains.fresh _ active
  refine ⟨block, receiver,
    { top := ⟨Nat.zero_le _, pushed⟩
      active := context
      depth := slot
      specials := specials
      apart := context ▸ notActive
      knows := .of_specials specials
        (known.setField (.inr (slot ▸ high)) (.inr (Nat.succ_pos _)))
      idle := .of_specials specials ?_ }⟩
  refine (Heap.fetch_setField_other (.inl (context ▸ notActive))).trans (idle.trans ?_)
  have wide : BlockField.home < machine.heap.pointerCount home := by
    rw [extent, Heap.pointerCount, sameHome] at room
    exact room
  refine Heap.fetch_eq_ok_iff.mpr ⟨_, Heap.pointers_eq_ok_iff.mpr ⟨_, made, rfl⟩, ?_⟩
  simp only [BlockField.caller, Array.getElem?_replicate]
  rw [if_pos (lt_trans (by decide) wide)]

/-! ## Evaluation -/

section

variable {block home method receiver : Value} {count start : Nat}

theorem classOf_block (isBlock : machine.heap.IsBlock machine.registers.specials.blockContextClass
    block) : classOf block machine = .ok machine.registers.specials.blockContextClass machine := by
  rcases isBlock with ⟨object, fields, here, species, -⟩
  have isObject : ¬ block.isSmall = true := by
    cases block with
    | small n => cases here
    | object slot => exact Bool.false_ne_true
  have read : Run.object block machine = .ok object machine :=
    readHeap_ok (Heap.object_eq_ok_iff.mpr here)
  rw [classOf, if_neg isObject, bind_ok read, species]
  rfl

/-- A block is not evaluated with another number of arguments, or while its caller waits. -/
theorem blockValue_fails {number : Nat}
    (known : machine.Knows block home method receiver count start) (onBlock : machine.Operand number block)
    (unfit : number ≠ count ∨ machine.Busy block) :
    blockValue number machine = .ok false machine := by
  have isObject := known.isBlock.isObject
  have takes : fetchInt block BlockField.argumentCount machine = .ok (count : Int) machine :=
    readHeap_ok known.takes
  rw [blockValue, bind_ok (operand_eq_ok onBlock), isObject, if_neg Bool.false_ne_true,
    bind_ok (classOf_block known.isBlock), bind_ok getRegisters_apply,
    if_neg (not_not.mpr rfl), bind_ok takes]
  split
  · rfl
  · rename_i same
    rcases unfit with different | ⟨caller, found, busy⟩
    · exact absurd (by omega) same
    · rw [bind_ok (fetch_ok found), bind_ok getNil_apply, if_pos busy]
      rfl

/-- Moving the arguments into the frame of a block leaves what the block knows alone. -/
theorem copyOperands_block (apart : machine.registers.activeContext ≠ block)
    (known : machine.Knows block home method receiver count start) :
    (copyOperands block count ContextField.frame).Ensures machine fun _ after => ∃ heap,
      after = machine.withHeap heap ∧ machine.heap.Rewrites block heap ∧
      (∀ place < count, heap.fetch block (ContextField.frame + place)
        = machine.heap.fetch machine.registers.activeContext
            (machine.registers.sp - (count - 1 - place))) ∧
      heap.BlockOf machine.registers.specials.blockContextClass block home method receiver count
        start := by
  refine ((copyOperands_fills apart count _).and
    (copyOperands_maintains store_isBlock block count _ machine known.isBlock)).mono ?_
  rintro _ _ ⟨⟨heap, rfl, rewrites, arguments, rest⟩, isBlock, -⟩
  refine ⟨heap, rfl, rewrites, arguments, known.transfer isBlock ?_ ?_ ?_⟩
  · intro index member
    refine rest index (.inl ?_)
    simp only [List.mem_cons, List.not_mem_nil, or_false] at member
    rcases member with rfl | rfl | rfl <;> decide
  · exact fun index _ => Heap.fetch_congr (rewrites.others home known.home_ne) index
  · exact Heap.methodHeader?_congr (rewrites.others method known.method_ne)

theorem store_block {index : Nat} (value : Value)
    (known : machine.Knows block home method receiver count start) (early : index < ContextField.method) :
    (store block index value).Ensures machine fun _ after => ∃ heap,
      after = machine.withHeap heap ∧ machine.heap.Wrote block index value heap ∧
      heap.BlockOf machine.registers.specials.blockContextClass block home method receiver count
        start := by
  refine ((store_wrote block index value).and (ensures_store machine block index value)).mono ?_
  rintro _ _ ⟨⟨heap, rfl, wrote⟩, -, same⟩
  have written : heap = machine.heap.setField block index value := congrArg Machine.heap same
  exact ⟨heap, rfl, wrote, written ▸ known.setField (.inl early) (.inl known.method_ne.symm)⟩

/-- A block that keeps its start and its arguments becomes active with them. -/
theorem activate_block (agrees : machine.Agrees)
    (apart : machine.registers.activeContext ≠ block)
    (known : machine.Knows block home method receiver count start)
    (rewound : machine.heap.fetchInt block ContextField.pc
      = machine.heap.fetchInt block BlockField.initialPc)
    (depth : machine.heap.fetchInt block ContextField.stackPointer = .ok count) :
    (activate block).Ensures machine fun _ after => ∃ pc sp,
      let heap := machine.heap.withCounters machine.registers.activeContext pc sp
      after = { machine with
        heap
        registers := { machine.registers with
          pc := start
          sp := ContextField.frame - 1 + count
          activeContext := block
          homeContext := home
          method
          receiver } } ∧
      heap.Waits machine.registers.activeContext machine.registers.homeContext
        machine.registers.method machine.registers.receiver machine.registers.pc
        machine.registers.sp ∧
      heap.BlockOf machine.registers.specials.blockContextClass block home method receiver count
        start := by
  refine (saveContext_waits agrees).bind ?_
  rintro _ _ ⟨pc, sp, rfl, waits⟩
  have blockWaits := known.waits_withCounters rewound depth apart pc sp
  intro _ _ ended
  rw [loadContext_of_waits blockWaits] at ended
  cases ended
  exact ⟨pc, sp, rfl, waits, known.withCounters _ pc sp⟩

/-- Make a block ready to be entered: give it its arguments and rewind it. -/
def readyBlock (block : Value) (count : Nat) : Run Unit := do
  copyOperands block count ContextField.frame
  let initialPc ← fetch block BlockField.initialPc
  store block ContextField.pc initialPc
  store block ContextField.stackPointer (.ofInt count)
  store block BlockField.caller (← getRegisters).activeContext

/-- How the heap comes out when a block was made ready to be entered. -/
structure Readied (machine : Machine) (block home method receiver : Value) (count start : Nat)
    (heap : Heap) : Prop where
  rewrites : machine.heap.Rewrites block heap
  arguments : ∀ place < count, heap.fetch block (ContextField.frame + place)
    = machine.heap.fetch machine.registers.activeContext
        (machine.registers.sp - (count - 1 - place))
  rewound : heap.fetchInt block ContextField.pc = heap.fetchInt block BlockField.initialPc
  depth : heap.fetchInt block ContextField.stackPointer = .ok count
  caller : heap.fetch block BlockField.caller = .ok machine.registers.activeContext
  known : heap.BlockOf machine.registers.specials.blockContextClass block home method receiver
    count start

theorem readyBlock_readies (apart : machine.registers.activeContext ≠ block)
    (known : machine.Knows block home method receiver count start) :
    (readyBlock block count).Ensures machine fun _ after => ∃ heap,
      after = machine.withHeap heap ∧ Readied machine block home method receiver count start heap := by
  refine (copyOperands_block apart known).bind ?_
  rintro _ _ ⟨filled, rfl, copied, arguments, knownThere⟩
  rcases knownThere.starts with ⟨header, isMethod, initial⟩
  rcases Heap.fetchInt_eq_ok_iff.mp initial with ⟨initialPc, found, counter⟩
  refine .bindOk (fetch_ok found) ?_
  refine (@store_block (machine.withHeap filled) _ _ _ _ _ _ _ initialPc knownThere
    (by decide)).bind ?_
  rintro _ _ ⟨first, rfl, pc, knownThere⟩
  refine (@store_block (machine.withHeap first) _ _ _ _ _ _ _ _ knownThere (by decide)).bind ?_
  rintro _ _ ⟨second, rfl, depth, knownThere⟩
  refine .bindOk getRegisters_apply ?_
  refine (@store_block (machine.withHeap second) _ _ _ _ _ _ _ _ knownThere (by decide)).mono ?_
  rintro _ _ ⟨third, rfl, caller, knownThere⟩
  simp only [Machine.withHeap_withHeap, Machine.heap_withHeap, Machine.registers_withHeap]
    at pc depth caller knownThere ⊢
  refine ⟨third, rfl, ?_⟩
  exact
    { rewrites := ((copied.trans pc.toRewrites).trans depth.toRewrites).trans caller.toRewrites
      arguments := fun place few => by
        rw [← arguments place few,
          caller.elsewhere _ (by simp [BlockField.caller, ContextField.frame]),
          depth.elsewhere _ (by simp [ContextField.stackPointer, ContextField.frame]; omega),
          pc.elsewhere _ (by simp [ContextField.pc, ContextField.frame]; omega)]
      rewound := by
        have same : third.fetch block ContextField.pc = third.fetch block BlockField.initialPc := by
          rw [caller.elsewhere _ (by decide), depth.elsewhere _ (by decide), pc.written,
            caller.elsewhere _ (by decide), depth.elsewhere _ (by decide),
            pc.elsewhere _ (by decide), found]
        rw [Heap.fetchInt, Heap.fetchInt, same]
      depth := Heap.fetchInt_of_fetch ((caller.elsewhere _ (by decide)).trans depth.written)
        known.int?_ofInt
      caller := caller.written
      known := knownThere }

/-- A block that nobody waits for is made ready, and the operands are dropped before it is
entered. -/
theorem blockValue_of_idle
    (known : machine.Knows block home method receiver count start) (onBlock : machine.Operand count block)
    (idle : machine.Idle block) :
    blockValue count machine = (do
      readyBlock block count
      drop (count + 1)
      activate block
      return true : Run Bool) machine := by
  have isObject := known.isBlock.isObject
  have takes : fetchInt block BlockField.argumentCount machine = .ok (count : Int) machine :=
    readHeap_ok known.takes
  rw [blockValue, bind_ok (operand_eq_ok onBlock), isObject, if_neg Bool.false_ne_true,
    bind_ok (classOf_block known.isBlock), bind_ok getRegisters_apply,
    if_neg (not_not.mpr rfl), bind_ok takes, if_neg (not_not.mpr rfl), bind_ok (fetch_ok idle),
    bind_ok getNil_apply, if_neg (not_not.mpr rfl)]
  simp only [readyBlock, bind_assoc]

/-- What is left agrees when the operands are dropped. -/
theorem agrees_ready (agrees : machine.Agrees)
    (apart : machine.registers.activeContext ≠ block)
    (known : machine.Knows block home method receiver count start) {heap : Heap} (rewrites : machine.heap.Rewrites block heap) :
    Machine.Agrees { machine with heap, registers.sp := machine.registers.sp - (count + 1) } := by
  rcases agrees.next with ⟨header, isMethod, -⟩
  have waiting := known.ne_of_waiting apart agrees.runs isMethod
  exact agrees.transfer rfl rfl rfl rfl rfl (Nat.sub_le _ _) fun value member =>
    rewrites.others value (waiting value member)

theorem blockValue_evaluates (agrees : machine.Agrees)
    (apart : machine.registers.activeContext ≠ block)
    (known : machine.Knows block home method receiver count start) (onBlock : machine.Operand count block)
    (idle : machine.Idle block) :
    (blockValue count).Ensures machine fun answered after =>
      answered = true ∧ machine.Evaluates block home method receiver count start after := by
  intro answered after ended
  rw [blockValue_of_idle known onBlock idle] at ended
  revert answered after
  refine (readyBlock_readies apart known).bind ?_
  rintro _ _ ⟨heap, rfl, readied⟩
  refine (ensures_drop _ _).bindChange fun _ => ?_
  refine (activate_block (agrees_ready agrees apart known readied.rewrites) apart readied.known
    readied.rewound readied.depth).bind ?_
  rintro _ _ ⟨pc, depth, rfl, waits, knownThere⟩
  have sameBlock := @Heap.get?_withCounters heap _ _ pc depth apart.symm
  refine .pure ⟨rfl, rfl, rfl, rfl, rfl, rfl, rfl, rfl, ?_, ?_, waits, ?_, knownThere⟩
  · intro place few
    exact (Heap.fetch_congr sameBlock _).trans (readied.arguments place few)
  · exact (Heap.fetch_congr sameBlock _).trans readied.caller
  · intro index notPc notDepth
    exact (Heap.fetch_withCounters notPc notDepth).trans
      (Heap.fetch_congr (readied.rewrites.others _ apart) index)

/-! Where the block has room for its arguments, its evaluation comes to its end. -/

theorem store_ends_of_extent {object value : Value} {index size : Nat}
    (extent : (machine.heap.pointers object).map Array.size = .ok size) (inside : index < size) :
    (store object index value).Ends machine := by
  cases readable : machine.heap.pointers object with
  | error error => simp [readable, Except.map] at extent
  | ok fields =>
    simp only [readable, Except.map, Except.ok.injEq] at extent
    exact store_ends readable (extent ▸ inside)

theorem copyOperands_ends {target : Value} {fields : Array Value} {index size : Nat}
    (apart : machine.registers.activeContext ≠ target)
    (readable : machine.heap.pointers machine.registers.activeContext = .ok fields)
    (below : machine.registers.sp < fields.size)
    (extent : (machine.heap.pointers target).map Array.size = .ok size) (count : Nat)
    (deep : count ≤ machine.registers.sp + 1) (room : index + count ≤ size) :
    (copyOperands target count index).Ends machine := by
  induction count generalizing machine index with
  | zero => exact .of_ok (pure_apply ())
  | succ count induction =>
    have here : machine.registers.sp - count < fields.size := by omega
    have found : machine.Operand count _ :=
      ⟨by omega, Heap.fetch_eq_ok_iff.mpr ⟨fields, readable, Array.getElem?_eq_getElem here⟩⟩
    refine .bindOk (operand_eq_ok found) ?_
    refine (store_ends_of_extent extent (by omega)).bind (store_wrote _ _ _) ?_
    rintro _ _ ⟨heap, rfl, wrote⟩
    refine @induction (machine.withHeap heap) _ apart ?_ below ?_ (by simpa using by omega)
      (by omega)
    · exact (Heap.pointers_congr (wrote.others _ apart)).trans readable
    · exact wrote.toRewrites.size.trans extent

/-- The registers that agree with the active context can be saved there. -/
theorem saveContext_ends (agrees : machine.Agrees) : saveContext.Ends machine := by
  rcases agrees.next with ⟨header, isMethod, -⟩
  rcases agrees.homeOf with ⟨kept, found, -⟩
  rcases Heap.fetch_eq_ok_iff.mp found with ⟨fields, readable, held⟩
  rcases Array.getElem?_eq_some_iff.mp held with ⟨below, -⟩
  simp only [ContextField.method] at below
  have extent : (machine.heap.pointers machine.registers.activeContext).map Array.size
      = .ok fields.size := by rw [readable]; rfl
  refine .bindOk getRegisters_apply (.bindOk (encodePc_ok isMethod _) ?_)
  refine (store_ends_of_extent extent ?_).bind (store_wrote _ _ _) ?_
  · simp only [ContextField.pc]
    omega
  rintro _ _ ⟨first, rfl, wrote⟩
  refine store_ends_of_extent (wrote.toRewrites.size.trans extent) ?_
  simp only [ContextField.stackPointer]
  omega

theorem activate_ends (agrees : machine.Agrees) {context : Value}
    (loaded : ∀ pc depth, (loadContext context).Ends (machine.withHeap
      (machine.heap.withCounters machine.registers.activeContext pc depth))) :
    (activate context).Ends machine := by
  refine (saveContext_ends agrees).bind (saveContext_waits agrees) ?_
  rintro _ _ ⟨pc, depth, rfl, -⟩
  exact loaded pc depth

theorem readyBlock_ends (apart : machine.registers.activeContext ≠ block)
    (known : machine.Knows block home method receiver count start) {fields : Array Value}
    (readable : machine.heap.pointers machine.registers.activeContext = .ok fields)
    (below : machine.registers.sp < fields.size) (deep : count ≤ machine.registers.sp + 1)
    (room : ContextField.frame + count ≤ machine.heap.pointerCount block) :
    (readyBlock block count).Ends machine := by
  have extent := known.isBlock.extent
  simp only [ContextField.frame] at room
  refine (copyOperands_ends apart readable below extent count deep room).bind
    (copyOperands_block apart known) ?_
  rintro _ _ ⟨filled, rfl, copied, -, knownThere⟩
  rcases knownThere.starts with ⟨header, isMethod, initial⟩
  rcases Heap.fetchInt_eq_ok_iff.mp initial with ⟨initialPc, found, -⟩
  have extent := copied.size.trans extent
  refine .bindOk (fetch_ok found) ?_
  refine Ends.bind (store_ends_of_extent extent ?_) (store_wrote _ _ _) ?_
  · simp only [ContextField.pc]
    omega
  rintro _ _ ⟨first, rfl, pc⟩
  have extent := pc.toRewrites.size.trans extent
  refine Ends.bind (store_ends_of_extent extent ?_) (store_wrote _ _ _) ?_
  · simp only [ContextField.stackPointer]
    omega
  rintro _ _ ⟨second, rfl, depth⟩
  refine .bindOk getRegisters_apply (store_ends_of_extent (depth.toRewrites.size.trans extent) ?_)
  simp only [BlockField.caller]
  omega

/-- A block that can be evaluated is evaluated, if it has room for the arguments. -/
theorem blockValue_ends (agrees : machine.Agrees)
    (apart : machine.registers.activeContext ≠ block)
    (known : machine.Knows block home method receiver count start) (onBlock : machine.Operand count block)
    (idle : machine.Idle block)
    (operands : ContextField.frame + count ≤ machine.registers.sp)
    (room : ContextField.frame + count ≤ machine.heap.pointerCount block) :
    (blockValue count).Ends machine := by
  rw [Ends, blockValue_of_idle known onBlock idle]
  rcases agrees.inside with ⟨fields, readable, below⟩
  refine (readyBlock_ends apart known readable below (by omega) room).bind
    (readyBlock_readies apart known) ?_
  rintro _ _ ⟨heap, rfl, readied⟩
  refine .bindOk (modifyRegisters_apply _) ?_
  have agreesThere := agrees_ready agrees apart known readied.rewrites
  refine (activate_ends agreesThere fun pc depth => ?_).bind
    (activate_block agreesThere apart readied.known readied.rewound readied.depth)
    fun _ _ _ => .of_ok (pure_apply true)
  exact .of_ok (loadContext_of_waits
    (readied.known.waits_withCounters readied.rewound readied.depth apart pc depth))

end

end Reply

end Smalltalk

import Smalltalk.Proofs.Frame.Saved
import Smalltalk.Proofs.Indexed.Boxing
import Smalltalk.Proofs.Lookup.Repeated
import Smalltalk.Proofs.Primitive.Counts
import Smalltalk.Proofs.Primitive.Performs

namespace Smalltalk

/-! Performing a message is the same as sending it: the arguments that are moved or unpacked lie
where a sender would have pushed them, and the method that was looked up to count its arguments
is the one that the message finds. -/

namespace Heap

variable {heap : Heap}

/-- An object is none of those in which a lookup from a class searches: the class and its
superclasses, their method dictionaries and the arrays of these. -/
structure Unsearched (heap : Heap) (species object : Value) : Prop where
  classes : ∀ above, heap.Ancestor species above → object ≠ above
  dictionaries : ∀ above dictionary, heap.Ancestor species above →
    heap.fetch above ClassField.methodDictionary = .ok dictionary → object ≠ dictionary
  methods : ∀ above dictionary methods, heap.Ancestor species above →
    heap.fetch above ClassField.methodDictionary = .ok dictionary →
    heap.fetch dictionary DictionaryField.methods = .ok methods → object ≠ methods

/-- The search from a class at the top reads four objects. -/
theorem Unsearched.of_top {heap : Heap} {species nil dictionary methods object : Value}
    (superclass : heap.fetch species ClassField.superclass = .ok nil)
    (last : heap.pointers nil = .ok #[])
    (own : heap.fetch species ClassField.methodDictionary = .ok dictionary)
    (held : heap.fetch dictionary DictionaryField.methods = .ok methods)
    (apart : object ∉ [species, nil, dictionary, methods]) : heap.Unsearched species object := by
  have empty {index : Nat} {value : Value} : heap.fetch nil index ≠ .ok value := by
    intro found
    rcases fetch_eq_ok_iff.mp found with ⟨fields, readable, inside⟩
    cases last.symm.trans readable
    cases inside
  have ancestors {above : Value} (ancestor : heap.Ancestor species above) :
      above = species ∨ above = nil := by
    induction ancestor with
    | self => exact .inl rfl
    | above _ next induction =>
      rcases induction with rfl | rfl
      · exact .inr (Except.ok.inj (next.symm.trans superclass))
      · exact absurd next empty
  have dictionaries {above found : Value} (ancestor : heap.Ancestor species above)
      (known : heap.fetch above ClassField.methodDictionary = .ok found) : found = dictionary := by
    rcases ancestors ancestor with rfl | rfl
    · exact Except.ok.inj (known.symm.trans own)
    · exact absurd known empty
  simp only [List.mem_cons, List.not_mem_nil, or_false, not_or] at apart
  refine ⟨fun above ancestor => ?_, fun above found ancestor known => ?_,
    fun above found array ancestor known stored => ?_⟩
  · rcases ancestors ancestor with rfl | rfl
    · exact apart.1
    · exact apart.2.1
  · rw [dictionaries ancestor known]
    exact apart.2.2.1
  · rw [dictionaries ancestor known, held] at stored
    cases stored
    exact apart.2.2.2

end Heap

namespace Machine

variable {machine before after : Machine} {selector species context : Value}

/-- What is not searched can be written to. -/
theorem LooksAlike.setField (alike : before.LooksAlike selector species after)
    (unsearched : before.heap.Unsearched species context) {index : Nat} (later : 0 < index)
    (value : Value) :
    before.LooksAlike selector species
      (after.withHeap (after.heap.setField context index value)) where
  specials := alike.specials
  size := (Heap.size_cells_setField ..).trans alike.size
  hash other := (Heap.hashOf_setField ..).trans (alike.hash other)
  classes other := (Heap.species_setField ..).trans (alike.classes other)
  kept above ancestor := by
    have kept := alike.kept above ancestor
    have apart := unsearched.classes above ancestor
    refine
      { superclass := (Heap.fetch_setField_other (.inl apart)).trans kept.superclass
        dictionary := (Heap.fetch_setField_other (.inl apart)).trans kept.dictionary
        selectors := fun dictionary known => ?_
        methods := fun dictionary methods known stored => ?_
        headers := fun dictionary methods place method known stored fetched => ?_ }
    · exact (Heap.pointers_setField_other (unsearched.dictionaries _ _ ancestor known)).trans
        (kept.selectors dictionary known)
    · exact (Heap.pointers_setField_other (unsearched.methods _ _ _ ancestor known stored)).trans
        (kept.methods dictionary methods known stored)
    · exact (Heap.methodHeader?_setField later).trans
        (kept.headers dictionary methods place method known stored fetched)

/-- Values lie on top of the stack, the deepest one first. -/
structure Operands (machine : Machine) (values : List Value) : Prop where
  depth : values.length ≤ machine.registers.sp
  held : ∀ index (inside : index < values.length),
    machine.heap.fetch machine.registers.activeContext
      (machine.registers.sp - values.length + 1 + index) = .ok values[index]

theorem Operands.operand {values : List Value} (operands : machine.Operands values) {index : Nat}
    (inside : index < values.length) :
    machine.Operand (values.length - 1 - index) values[index] := by
  have depth := operands.depth
  refine ⟨by omega, ?_⟩
  rw [← operands.held index inside]
  congr 1
  omega

end Machine

namespace Run

open Machine

variable {machine after : Machine} {values : List Value}

/-! ## Pushing -/

theorem push_stored {value : Value} {heap : Heap}
    (stored : machine.heap.store machine.registers.activeContext (machine.registers.sp + 1) value
      = .ok heap) :
    push value machine = .ok () (machine.withTop heap (machine.registers.sp + 1)) := by
  refine (bind_ok (modifyRegisters_apply _)).trans ((bind_ok getRegisters_apply).trans ?_)
  rw [store]
  dsimp only
  rw [stored]
  rfl

theorem stored_of_store {object value : Value} {index : Nat}
    (ended : store object index value machine = .ok () after) :
    ∃ heap, machine.heap.store object index value = .ok heap ∧ after = machine.withHeap heap := by
  rw [store] at ended
  cases stored : machine.heap.store object index value with
  | ok heap =>
    rw [stored] at ended
    cases ended
    exact ⟨heap, rfl, rfl⟩
  | error error =>
    rw [stored] at ended
    cases ended

/-- A value that is pushed is stored above the others. -/
theorem stored_of_push {value : Value} (pushed : push value machine = .ok () after) :
    ∃ heap, machine.heap.store machine.registers.activeContext (machine.registers.sp + 1) value
        = .ok heap ∧ after = machine.withTop heap (machine.registers.sp + 1) := by
  have goesOn := (bind_ok getRegisters_apply).symm.trans
    ((bind_ok (modifyRegisters_apply _)).symm.trans pushed)
  exact stored_of_store goesOn

/-- A value that already lies above the others is pushed by counting it. -/
theorem push_held {value : Value}
    (held : machine.heap.fetch machine.registers.activeContext (machine.registers.sp + 1)
      = .ok value) :
    push value machine = .ok () (machine.withTop machine.heap (machine.registers.sp + 1)) := by
  rcases Heap.fetch_eq_ok_iff.mp held with ⟨fields, readable, inside⟩
  refine push_stored (Heap.store_eq_ok_iff.mpr ⟨⟨fields, readable, ?_⟩, ?_⟩)
  · exact (Array.getElem?_eq_some_iff.mp inside).1
  · exact (Heap.setField_of_fetch held).symm

/-- Pushing does not look anything up. -/
theorem pushAll_withMethodCache (pushed : values.forM push machine = .ok () after)
    (cache : MethodCache) :
    values.forM push (machine.withMethodCache cache) = .ok () (after.withMethodCache cache) := by
  induction values generalizing machine with
  | nil =>
    cases pushed
    rfl
  | cons first rest induction =>
    change (push first >>= fun _ => rest.forM push) machine = _ at pushed
    cases one : push first machine with
    | error stop between => cases (bind_error one).symm.trans pushed
    | ok _ between =>
      rcases stored_of_push one with ⟨heap, stored, rfl⟩
      refine (bind_ok (@push_stored (machine.withMethodCache cache) _ _ stored)).trans ?_
      exact induction ((bind_ok one).symm.trans pushed)

/-- Nothing that is searched is written to. -/
theorem pushAll_looksAlike {before : Machine} {selector species context : Value}
    (unsearched : before.heap.Unsearched species context) :
    Maintains (fun later => later.registers.activeContext = context ∧
      before.LooksAlike selector species later) (values.forM push) fun _ => True := by
  induction values with
  | nil => exact .pure trivial
  | cons first rest induction =>
    refine Maintains.bind (?_ : Maintains _ _ fun _ => True) fun _ _ => induction
    rintro later ⟨rfl, alike⟩ _ after pushed
    rcases stored_of_push pushed with ⟨heap, stored, rfl⟩
    rcases Heap.store_eq_ok_iff.mp stored with ⟨-, rfl⟩
    have written := alike.setField unsearched (Nat.succ_pos later.registers.sp) first
    exact ⟨⟨rfl, written.specials, written.size, written.hash, written.classes, written.kept⟩,
      trivial⟩

/-- Values that are moved one place down lie where they would have been pushed. -/
theorem pushAll_of_shiftDown {below : Nat}
    (held : ∀ index (inside : index < values.length),
      machine.heap.fetch machine.registers.activeContext (below + 2 + index) = .ok values[index])
    (shifted : Reply.shiftDown machine.registers.activeContext values.length (below + 1) machine
      = .ok () after) :
    values.forM push (machine.withTop machine.heap below)
      = .ok () (after.withTop after.heap (below + values.length)) := by
  induction values generalizing machine below with
  | nil =>
    cases shifted
    rfl
  | cons first rest induction =>
    have next : machine.heap.fetch machine.registers.activeContext (below + 1 + 1) = .ok first :=
      held 0 (Nat.succ_pos _)
    have moved := (bind_ok (fetch_ok next)).symm.trans shifted
    cases one : store machine.registers.activeContext (below + 1) first machine with
    | error stop between => cases (bind_error one).symm.trans moved
    | ok _ between =>
      rcases stored_of_store one with ⟨heap, stored, rfl⟩
      rcases Heap.store_eq_ok_iff.mp stored with ⟨-, rfl⟩
      refine (bind_ok (@push_stored (machine.withTop machine.heap below) _ _ stored)).trans ?_
      have others := (bind_ok one).symm.trans moved
      rw [List.length_cons, Nat.add_comm rest.length, ← Nat.add_assoc]
      let written := machine.heap.setField machine.registers.activeContext (below + 1) first
      refine @induction (machine.withHeap written) (below + 1) (fun index inside => ?_) others
      have later := held (index + 1) (Nat.succ_lt_succ inside)
      rw [List.getElem_cons_succ] at later
      refine (Heap.fetch_setField_other (.inr (by omega))).trans ?_
      rw [← later, registers_withHeap]
      congr 1
      omega

end Run

namespace Machine

variable {machine after : Machine} {receiver selector species : Value} {arguments : List Value}

/-- A message asks its receiver to perform a selector with arguments. They follow the selector on
the stack, or are the elements of an array that does. -/
inductive Performing (machine : Machine) (receiver selector : Value) (arguments : List Value) :
    (number : Nat) → Prop
  | shift (counted : machine.registers.argumentCount = arguments.length + 1)
      (operands : machine.Operands (receiver :: selector :: arguments)) :
      Performing machine receiver selector arguments 83
  | spread {array : Value} {object : HeapObject} (counted : machine.registers.argumentCount = 2)
      (operands : machine.Operands [receiver, selector, array])
      (isArray : machine.heap.get? array = some object)
      (isOfArrays : object.species = machine.registers.specials.arrayClass)
      (elements : (object.pointers?.getD #[]).toList = arguments) :
      Performing machine receiver selector arguments 84

theorem Performing.depth {number : Nat}
    (performing : machine.Performing receiver selector arguments number) :
    machine.registers.argumentCount < machine.registers.sp := by
  cases performing with
  | shift counted operands =>
    have depth := operands.depth
    rw [List.length_cons, List.length_cons] at depth
    omega
  | spread counted operands =>
    have depth := operands.depth
    rw [List.length_cons, List.length_cons, List.length_singleton] at depth
    omega

theorem Performing.onReceiver {number : Nat}
    (performing : machine.Performing receiver selector arguments number) :
    machine.Operand machine.registers.argumentCount receiver := by
  cases performing with
  | shift counted operands =>
    rw [counted]
    exact operands.operand (Nat.succ_pos _)
  | spread counted operands =>
    rw [counted]
    exact operands.operand (Nat.succ_pos _)

/-- A message has been performed: after the lookup that counts the arguments of its method, they
have been pushed in place of those of the message that asked for it, and it has been sent. -/
def Performed (send : Reply.Sender) (machine : Machine) (selector species : Value)
    (arguments : List Value) (after : Machine) : Prop :=
  ∃ found left arranged, Run.lookupMethod selector species machine = .ok found left ∧
    (Run.drop machine.registers.argumentCount >>= fun _ => arguments.forM Run.push) left
      = .ok () arranged ∧
    send selector arguments.length species arranged = .ok () after

end Machine

namespace Reply

open Run Machine

variable {machine left after : Machine} {receiver selector species : Value}
  {arguments : List Value} {count : Nat} {send : Sender}

/-- Whether the arguments are too few or too many is looked up first. -/
theorem mismatches_lookup :
    (mismatches selector species count).Ensures machine fun _ after =>
      ∃ found, lookupMethod selector species machine = .ok found after := by
  intro mismatched after ended
  cases looked : lookupMethod selector species machine with
  | error stop between => cases (bind_error looked).symm.trans ended
  | ok found between =>
    have goesOn := (bind_ok looked).symm.trans ended
    suffices after = between from ⟨found, by rw [this]⟩
    cases found with
    | none =>
      cases goesOn
      rfl
    | some entry =>
      cases header : between.heap.methodHeader? entry.method with
      | error error => cases (bind_error (readHeap_error header)).symm.trans goesOn
      | ok header' =>
        have last := (bind_ok (readHeap_ok header)).symm.trans goesOn
        cases header' <;> cases last <;> rfl

/-- A method that takes another number of arguments. -/
theorem mismatches_of_differs {entry : CacheEntry} {header : MethodHeader}
    (looked : lookupMethod selector species machine = .ok (some entry) left)
    (described : machine.heap.methodHeader? entry.method = .ok (some header))
    (differs : header.argumentCount ≠ count) :
    mismatches selector species count machine = .ok true left := by
  rcases (lookupMethod_cacheApart selector species machine ⟨_, rfl⟩ _ _ looked).1 with ⟨cache, rfl⟩
  refine (bind_ok looked).trans ((bind_ok (readHeap_ok described)).trans ?_)
  simp only [ne_eq, differs, not_false_eq_true, decide_true]
  rfl

/-- Perform a message with so many arguments, which are put in place in some way. -/
def performBy (send : Sender) (selector species : Value) (count : Nat) (refused : Prop)
    [Decidable refused] (arrange : Run Unit) : Run Bool := do
  if refused then return false
  if ← mismatches selector species count then return false
  arrange
  send selector count species
  return true

section

variable {refused : Prop} [Decidable refused] {arrange : Run Unit}

theorem performBy_sends :
    (performBy send selector species count refused arrange).Ensures machine fun answered after =>
      answered = true → ∃ found left arranged, lookupMethod selector species machine = .ok found left ∧
        arrange left = .ok () arranged ∧ send selector count species arranged = .ok () after := by
  rw [performBy]
  split
  · exact .pure nofun
  refine mismatches_lookup.bind ?_
  rintro mismatched left ⟨found, looked⟩
  split
  · exact .pure nofun
  refine Ensures.bind (fun _ _ ended => ended) ?_
  rintro ⟨⟩ arranged placed
  refine Ensures.bind (fun _ _ ended => ended) ?_
  rintro ⟨⟩ after sent
  exact .pure fun _ => ⟨found, left, arranged, looked, placed, sent⟩

/-- A method that takes another number of arguments is not performed. -/
theorem performBy_refuses {entry : CacheEntry} {header : MethodHeader}
    (looked : lookupMethod selector species machine = .ok (some entry) left)
    (described : machine.heap.methodHeader? entry.method = .ok (some header))
    (differs : header.argumentCount ≠ count) :
    ∃ after, performBy send selector species count refused arrange machine = .ok false after := by
  rw [performBy]
  split
  · exact ⟨machine, rfl⟩
  · exact ⟨left, bind_ok (mismatches_of_differs looked described differs)⟩

end

theorem perform_eq (operands : machine.Operands (receiver :: selector :: arguments))
    (classified : classOf receiver machine = .ok species machine) :
    perform send (arguments.length + 1) machine
      = performBy send selector species arguments.length selector.isSmall (do
          let registers ← getRegisters
          shiftDown registers.activeContext arguments.length (registers.sp - arguments.length)
          drop 1) machine := by
  have onReceiver : machine.Operand (arguments.length + 1) receiver :=
    operands.operand (Nat.succ_pos _)
  have onSelector : machine.Operand arguments.length selector :=
    operands.operand (Nat.succ_lt_succ (Nat.succ_pos _))
  rw [perform, if_neg (Nat.succ_ne_zero _), argument, if_pos (Nat.succ_pos _)]
  refine (bind_ok (operand_eq_ok onSelector)).trans ?_
  rw [performBy]
  split
  · rfl
  · simp only [bind_assoc]
    exact (bind_ok (operand_eq_ok onReceiver)).trans (bind_ok classified)

/-- Arguments that are moved down lie where they would have been pushed. -/
theorem shifted_arranges {cache : MethodCache} {arranged : Machine}
    (operands : machine.Operands (receiver :: selector :: arguments))
    (shifted : (do
      let registers ← getRegisters
      shiftDown registers.activeContext arguments.length (registers.sp - arguments.length)
      drop 1) (machine.withMethodCache cache) = .ok () arranged) :
    (drop (arguments.length + 1) >>= fun _ => arguments.forM push) (machine.withMethodCache cache)
      = .ok () arranged := by
  have depth := operands.depth
  rw [List.length_cons, List.length_cons] at depth
  have below : machine.registers.sp - arguments.length
      = machine.registers.sp - (arguments.length + 1) + 1 := by omega
  have top : machine.registers.sp - (arguments.length + 1) + arguments.length
      = machine.registers.sp - 1 := by omega
  have goesOn := (bind_ok getRegisters_apply).symm.trans shifted
  cases moved : shiftDown machine.registers.activeContext arguments.length
      (machine.registers.sp - arguments.length) (machine.withMethodCache cache) with
  | error stop between => cases (bind_error moved).symm.trans goesOn
  | ok _ between =>
    have registers := (shiftDown_ensures _ _ (machine.withMethodCache cache) _ _ moved).2.1
    have pushed := @pushAll_of_shiftDown (machine.withMethodCache cache) between arguments
      (machine.registers.sp - (arguments.length + 1)) (fun index inside => ?_) (below ▸ moved)
    · cases (bind_ok moved).symm.trans goesOn
      refine (bind_ok (modifyRegisters_apply _)).trans (pushed.trans ?_)
      rw [top, ← show between.registers.sp = machine.registers.sp by rw [registers]; rfl]
      rfl
    · have held := operands.held (index + 2) (by simpa using inside)
      simp only [List.getElem_cons_succ, List.length_cons] at held
      refine Eq.trans (congrArg _ ?_) held
      omega

theorem performWithArguments_eq {array : Value} {object : HeapObject}
    (operands : machine.Operands [receiver, selector, array])
    (isArray : machine.heap.get? array = some object)
    (isOfArrays : object.species = machine.registers.specials.arrayClass)
    (elements : (object.pointers?.getD #[]).toList = arguments)
    (classified : classOf receiver machine = .ok species machine) :
    performWithArguments send 2 machine
      = performBy send selector species arguments.length (selector.isSmall ∨
          machine.heap.pointerCount machine.registers.activeContext
            ≤ machine.registers.sp - 2 + arguments.length) (do
          drop 2
          arguments.forM push) machine := by
  subst elements
  have onReceiver : machine.Operand 2 receiver := operands.operand (Nat.succ_pos _)
  have onSelector : machine.Operand 1 selector := operands.operand
    (show 1 < [receiver, selector, array].length by simp)
  have onArray : machine.Operand 0 array := operands.operand
    (show 2 < [receiver, selector, array].length by simp)
  have isObject : ¬ array.isSmall = true := by
    rintro small
    cases array <;> cases small
    cases isArray
  refine (bind_ok (operand_eq_ok onSelector)).trans ((bind_ok (operand_eq_ok onArray)).trans
    ((bind_ok (operand_eq_ok onReceiver)).trans ((bind_ok classified).trans ?_)))
  rw [performWithArray, performBy]
  by_cases small : selector.isSmall = true
  · rw [if_pos (.inl small), if_pos (.inl small)]
  rw [if_neg (not_or.mpr ⟨small, isObject⟩)]
  refine (bind_ok getRegisters_apply).trans ((bind_ok (classOf_object isArray)).trans ?_)
  rw [if_neg (not_not.mpr isOfArrays)]
  refine (bind_ok (readHeap_ok (Heap.object_eq_ok_iff.mpr isArray))).trans
    ((bind_ok getHeap_apply).trans ?_)
  by_cases full : machine.heap.pointerCount machine.registers.activeContext
      ≤ machine.registers.sp - 2 + (object.pointers?.getD #[]).toList.length
  · rw [if_pos full, if_pos (.inr full)]
  · rw [if_neg full, if_neg (not_or.mpr ⟨small, full⟩)]
    simp only [bind_assoc]

end Reply

namespace Run

open Machine

variable {machine left after : Machine} {receiver selector species : Value}
  {arguments : List Value} {number : Nat} {sender : Reply.Sender}

/-- A numbered primitive answers with what it leaves, or fails with the stack as it was. -/
theorem respond_numbered {primitive : Primitive} {answered : Bool}
    (named : Primitive.ofNumber? number = some primitive) (notQuick : number < quickSelf)
    (ran : primitive.run sender machine.registers.argumentCount machine = .ok answered after) :
    respond sender number machine = .ok answered
      (if answered then after
        else { after with registers.sp := machine.registers.sp }) := by
  rw [respond, if_neg fun quick => Nat.not_le.mpr notQuick quick.1, named]
  refine (bind_ok getRegisters_apply).trans ((bind_ok ran).trans ?_)
  cases answered <;> rfl

theorem run_of_respond {primitive : Primitive}
    (named : Primitive.ofNumber? number = some primitive) (notQuick : number < quickSelf)
    (answered : respond sender number machine = .ok true after) :
    primitive.run sender machine.registers.argumentCount machine = .ok true after := by
  cases ran : primitive.run sender machine.registers.argumentCount machine with
  | ok succeeded between =>
    have ended := (respond_numbered named notQuick ran).symm.trans answered
    cases succeeded with
    | true =>
      cases ended
      rfl
    | false => cases ended
  | error stop between =>
    rw [respond, if_neg fun quick => Nat.not_le.mpr notQuick quick.1, named] at answered
    cases (bind_error ran).symm.trans ((bind_ok getRegisters_apply).symm.trans answered)

end Run

namespace Machine

open Run

variable {machine left after : Machine} {receiver selector species : Value}
  {arguments : List Value} {number : Nat} {sender : Reply.Sender}

theorem Performing.performed (performing : machine.Performing receiver selector arguments number)
    (classified : classOf receiver machine = .ok species machine)
    (answered : respond sender number machine = .ok true after) :
    machine.Performed sender selector species arguments after := by
  cases performing with
  | shift counted operands =>
    have ran : Reply.perform sender machine.registers.argumentCount machine = _ :=
      run_of_respond (rfl : Primitive.ofNumber? 83 = some .perform) (by decide) answered
    rw [counted, Reply.perform_eq operands classified] at ran
    rcases Reply.performBy_sends _ _ ran rfl with ⟨found, left, arranged, looked, shifted, sent⟩
    rcases (lookupMethod_cacheApart selector species machine ⟨_, rfl⟩ _ _ looked).1 with ⟨cache, rfl⟩
    exact ⟨found, _, arranged, looked, counted ▸ Reply.shifted_arranges operands shifted, sent⟩
  | spread counted operands isArray isOfArrays elements =>
    have ran : Reply.performWithArguments sender machine.registers.argumentCount machine = _ :=
      run_of_respond (rfl : Primitive.ofNumber? 84 = some .performWithArguments) (by decide) answered
    rw [counted, Reply.performWithArguments_eq operands isArray isOfArrays elements classified] at ran
    rcases Reply.performBy_sends _ _ ran rfl with ⟨found, left, arranged, looked, pushed, sent⟩
    exact ⟨found, left, arranged, looked, counted ▸ pushed, sent⟩

theorem Performing.refused {entry : CacheEntry} {header : MethodHeader}
    (performing : machine.Performing receiver selector arguments number)
    (classified : classOf receiver machine = .ok species machine)
    (looked : lookupMethod selector species machine = .ok (some entry) left)
    (described : machine.heap.methodHeader? entry.method = .ok (some header))
    (differs : header.argumentCount ≠ arguments.length) :
    ∃ after, respond sender number machine = .ok false after ∧ CacheApart machine after := by
  suffices ∃ after, respond sender number machine = .ok false after by
    rcases this with ⟨after, failed⟩
    exact ⟨after, failed, respond_clean sender number machine false after failed rfl⟩
  cases performing with
  | shift counted operands =>
    have ran : ∃ after, Reply.perform sender machine.registers.argumentCount machine
        = .ok false after := by
      rw [counted, Reply.perform_eq operands classified]
      exact Reply.performBy_refuses looked described differs
    rcases ran with ⟨after, failed⟩
    exact ⟨_, respond_numbered (rfl : Primitive.ofNumber? 83 = some .perform) (by decide) failed⟩
  | spread counted operands isArray isOfArrays elements =>
    have ran : ∃ after, Reply.performWithArguments sender machine.registers.argumentCount machine
        = .ok false after := by
      rw [counted, Reply.performWithArguments_eq operands isArray isOfArrays elements classified]
      exact Reply.performBy_refuses looked described differs
    rcases ran with ⟨after, failed⟩
    exact ⟨_, respond_numbered (rfl : Primitive.ofNumber? 84 = some .performWithArguments)
      (by decide) failed⟩

end Machine

/-! ## Sending directly -/

namespace Run

open Machine

variable {machine left : Machine} {receiver selector species : Value} {arguments : List Value}
  {number : Nat}

/-- Push a receiver and arguments in place of the operands of a message, and send another one. -/
def sendDirectly (depth count : Nat) (receiver selector : Value) (arguments : List Value) :
    Run Unit := do
  drop (count + 1)
  (receiver :: arguments).forM push
  send depth selector arguments.length false

/-- The lookup of a message, in the cache that another one has left or before it, finds the
same, and the message goes on alike. -/
theorem sendToClass_follows {found : Option CacheEntry} {arranged : Machine} {depth count : Nat}
    (looked : lookupMethod selector species machine = .ok found left)
    (ready : machine.registers.methodCache.Ready)
    (alike : machine.LooksAlike selector species arranged)
    (cached : arranged.registers.methodCache = machine.registers.methodCache) :
    Follows (sendToClass depth selector count species)
      (arranged.withMethodCache left.registers.methodCache) arranged := by
  cases depth with
  | zero => exact .throw
  | succ depth =>
    have lookedUp := lookedUp_of_ok looked
    have ignored (species : Value) : IgnoresCounts (resolveMessage species) := .resolveMessage
    refine sendToClassBy_follows ignored (sendToClassBy_ignores ignored depth) ?_
    have alikeThere (cache : MethodCache) : machine.LooksAlike selector species
        ((arranged.withMethodCache cache).sending selector count species) :=
      ⟨alike.specials, alike.size, alike.hash, alike.classes, alike.kept⟩
    let there := (arranged.withMethodCache left.registers.methodCache).sending selector count species
    rcases lookedUp.later (alikeThere left.registers.methodCache) ready rfl with ⟨early, again⟩
    rcases lookedUp.elsewhere (alikeThere machine.registers.methodCache) rfl with ⟨late, once⟩
    rw [← cached] at once
    refine Ensures.bindOk getRegisters_apply (Ensures.bindOk again ?_)
    refine Ensures.mono ((?_ : IgnoresCounts _) (there.withCacheCounts early) late) ?_
    · cases found <;> grind
    · rintro resolved after ⟨later, same⟩
      exact ⟨later, (bind_ok getRegisters_apply).trans ((bind_ok once).trans same)⟩

/-- Performing a message leaves the machine as sending it directly would, apart from the counts
of the method cache: with the receiver and the arguments pushed in the place of the operands,
and whatever the message comes to. A method that takes another number of arguments is not
performed, and the machine stays as it is, apart from the method cache. -/
theorem perform_sends_directly {depth : Nat}
    (performing : machine.Performing receiver selector arguments number)
    (classified : classOf receiver machine = .ok species machine)
    (unsearched : machine.heap.Unsearched species machine.registers.activeContext)
    (ready : machine.registers.methodCache.Ready) :
    (∀ after, respond (sendToClass depth) number machine = .ok true after →
      ∃ counts, sendDirectly depth machine.registers.argumentCount receiver selector arguments machine
        = .ok () (after.withCacheCounts counts)) ∧
      ∀ entry header left, lookupMethod selector species machine = .ok (some entry) left →
        machine.heap.methodHeader? entry.method = .ok (some header) →
        header.argumentCount ≠ arguments.length →
        ∃ after, respond (sendToClass depth) number machine = .ok false after ∧
          CacheApart machine after := by
  refine ⟨fun after answered => ?_, fun _ _ _ looked described differs =>
    performing.refused classified looked described differs⟩
  rcases performing.performed classified answered with ⟨found, left, arranged, looked, pushed, sent⟩
  rcases (lookupMethod_cacheApart selector species machine ⟨_, rfl⟩ _ _ looked).1 with ⟨cache, rfl⟩
  let count := machine.registers.argumentCount
  let dropped := machine.withTop machine.heap (machine.registers.sp - count)
  have depthEnough := performing.depth
  have onReceiver := performing.onReceiver
  -- The receiver is pushed where it lies, and the arguments as they were for the message.
  have placed : (arguments.forM push) dropped
      = .ok () (arranged.withMethodCache machine.registers.methodCache) :=
    pushAll_withMethodCache ((bind_ok (modifyRegisters_apply _)).symm.trans pushed)
      machine.registers.methodCache
  have slot : machine.registers.sp - (count + 1) + 1 = machine.registers.sp - count := by omega
  have lies : (machine.withTop machine.heap (machine.registers.sp - (count + 1))).heap.fetch
      machine.registers.activeContext (machine.registers.sp - (count + 1) + 1) = .ok receiver :=
    slot ▸ onReceiver.2
  have pushedReceiver : push receiver (machine.withTop machine.heap
      (machine.registers.sp - (count + 1))) = .ok () dropped :=
    (push_held lies).trans (congrArg _ (congrArg (machine.withTop machine.heap) slot))
  let direct := arranged.withMethodCache machine.registers.methodCache
  have alike : machine.LooksAlike selector species direct :=
    (pushAll_looksAlike unsearched dropped ⟨rfl, .of_heap rfl rfl⟩ _ _ placed).1.2
  rcases pushAll_ensures arguments dropped _ _ placed with ⟨restacked, top, below, -⟩
  have onTop : direct.Operand arguments.length receiver := by
    have height : direct.registers.sp - arguments.length = machine.registers.sp - count :=
      (congrArg (· - arguments.length) top).trans (Nat.add_sub_cancel ..)
    refine ⟨top ▸ Nat.le_add_left .., ?_⟩
    rw [height, restacked.context]
    exact (below _ (Nat.le_refl _)).trans onReceiver.2
  have restored : direct.withMethodCache cache = arranged :=
    (EStateM.Result.ok.inj ((pushAll_withMethodCache placed cache).symm.trans
      ((bind_ok (modifyRegisters_apply _)).symm.trans pushed))).2
  have follows : Follows (sendToClass depth selector arguments.length species)
      (direct.withMethodCache cache) direct := sendToClass_follows looked ready alike rfl
  rcases follows _ _ (restored.symm ▸ sent) with ⟨counts, sentDirectly⟩
  refine ⟨counts, (bind_ok (modifyRegisters_apply _)).trans ?_⟩
  refine (bind_ok ((bind_ok pushedReceiver).trans placed)).trans ?_
  exact (bind_ok (operand_eq_ok onTop)).trans ((bind_ok (classOf_again alike classified)).trans
    sentDirectly)

/-- A method that takes one argument. -/
def oneArgumentMethod : HeapObject :=
  { Machine.sampleMethod 0 [] #[120] with
    body := .method #[(MethodHeader.pack 1 1 0 0 false).value] #[120] }

/-- A machine whose message asks its receiver to perform a selector with one argument, which names
a method that takes it. -/
def forwardingMachine : Machine :=
  let nil : Value := .object 0
  let machine := Machine.sampleMachine
    [Machine.sampleNode .zero #[], Machine.sampleNode .zero #[nil, .object 2, .zero],
      Machine.sampleNode .zero #[.zero, .object 3, .object 4, .object 9],
      Machine.sampleNode .zero #[.object 5, .object 5], Machine.sampleNode .zero #[],
      oneArgumentMethod, Machine.sampleMethod 0 [.object 9] #[240],
      Machine.sampleNode .zero
        #[nil, nil, nil, .object 6, nil, .object 8, .object 8, .object 4, .object 9],
      Machine.sampleNode (.object 1) #[], Machine.sampleNode .zero #[]]
    12 nil
  { machine with registers.sp := 8, registers.argumentCount := 2 }

theorem performing_forwardingMachine :
    forwardingMachine.Performing (.object 8) (.object 4) [.object 9] 83 :=
  .shift rfl ⟨by decide, by decide +kernel⟩

/-- The context of the message has nothing to do with the class of its receiver. -/
theorem unsearched_forwardingMachine :
    forwardingMachine.heap.Unsearched (.object 1) forwardingMachine.registers.activeContext :=
  .of_top rfl rfl rfl rfl (by decide)

/-- The method that is performed becomes active as if it had been sent. -/
theorem perform_sends_directly_forwardingMachine :
    let after := (respond (sendToClass 1) 83).left forwardingMachine
    respond (sendToClass 1) 83 forwardingMachine = .ok true after ∧
      after.registers.method = .object 5 ∧
      ∃ counts, sendDirectly 1 2 (.object 8) (.object 4) [.object 9] forwardingMachine
        = .ok () (after.withCacheCounts counts) := by
  intro after
  have answered : respond (sendToClass 1) 83 forwardingMachine = .ok true after :=
    ended?_eq_some.mp (by decide +kernel)
  have classified : classOf (.object 8) forwardingMachine = .ok (.object 1) forwardingMachine :=
    ended?_eq_some.mp (by decide +kernel)
  have directly := (perform_sends_directly performing_forwardingMachine classified
    unsearched_forwardingMachine (MethodCache.ready_ofSize (by decide) (by decide))).1 after answered
  exact ⟨answered, by decide +kernel, directly⟩

/-- A machine whose active context is also the method dictionary of the receiver's class. The
selector that is performed is found where it lies on the stack. -/
def entangledMachine : Machine :=
  let nil : Value := .object 0
  let machine := Machine.sampleMachine
    [Machine.sampleNode .zero #[], Machine.sampleNode .zero #[.object 10, .object 7, .zero],
      Machine.sampleNode .zero #[.zero, .object 11, .object 4, .object 9],
      Machine.sampleNode .zero
        #[.object 5, .object 5, .object 5, .object 5, .object 5, .object 5, .object 5],
      Machine.sampleNode .zero #[], oneArgumentMethod, Machine.sampleMethod 0 [.object 9] #[240],
      Machine.sampleNode .zero #[nil, .object 3, .object 9, .object 6, .object 9, .object 8,
        .object 8, .object 4, .object 9],
      Machine.sampleNode (.object 1) #[], Machine.sampleNode .zero #[],
      Machine.sampleNode .zero #[nil, .object 2, .zero],
      Machine.sampleNode .zero #[.object 12, .object 12], oneArgumentMethod]
    14 nil
  { machine with registers.sp := 8, registers.argumentCount := 2 }

/-- When the arguments are moved the selector is gone, but its method is already remembered; a
message that is sent directly finds that of the superclass. -/
theorem not_performs_as_sent_entangledMachine :
    let after := (respond (sendToClass 1) 83).left entangledMachine
    let sent := (sendDirectly 1 2 (.object 8) (.object 4) [.object 9]).left entangledMachine
    entangledMachine.Performing (.object 8) (.object 4) [.object 9] 83 ∧
      respond (sendToClass 1) 83 entangledMachine = .ok true after ∧
      sendDirectly 1 2 (.object 8) (.object 4) [.object 9] entangledMachine = .ok () sent ∧
      after.registers.method = .object 5 ∧ sent.registers.method = .object 12 := by
  intro after sent
  exact ⟨.shift rfl ⟨by decide, by decide +kernel⟩, ended?_eq_some.mp (by decide +kernel),
    ended?_eq_some.mp (by decide +kernel), by decide +kernel, by decide +kernel⟩

end Run

end Smalltalk

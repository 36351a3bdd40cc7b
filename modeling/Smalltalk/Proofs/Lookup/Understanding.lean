import Smalltalk.Proofs.Frame.Block
import Smalltalk.Proofs.Machine.Stops
import Smalltalk.Proofs.Primitive.DirectSend

namespace Smalltalk

/-! A message for which there is no method on the way up from a class is packed into a Message,
which takes the place of its arguments, and sent again. Two objects are made for that while the
arguments lie only on the stack. Whatever is collected meanwhile, what the registers lead to
stays as it is, and with it the classes in which the second search goes on. -/

namespace Heap

variable {before written after : Heap} {selector nil species : Value}

/-- A walk that finds nothing has seen all superclasses. -/
theorem Walks.hasLineage (walks : before.Walks selector nil species (.ok none)) :
    before.HasLineage nil species := by
  generalize missed : (Except.ok none : Except MemoryError (Option Value)) = answer at walks
  induction walks with
  | ended => exact ⟨_, .ended⟩
  | inherited proper _ next _ induction =>
    rcases induction missed with ⟨classes, lineage⟩
    exact ⟨_, .inherits proper next lineage⟩
  | own => cases missed
  | unsearchable => cases missed
  | cutOff => cases missed

/-- A class is kept by a heap that has the same objects wherever the class leads to. -/
theorem KeepsClass.congr {known : Value → Prop} (kept : KeepsClass before written species)
    (same : ∀ value, known value → after.get? value = written.get? value)
    (closed : ∀ object index value, known object → before.fetch object index = .ok value →
      known value)
    (start : known species) : KeepsClass before after species where
  superclass := (fetch_congr (same _ start) _).trans kept.superclass
  dictionary := (fetch_congr (same _ start) _).trans kept.dictionary
  selectors dictionary found :=
    (pointers_congr (same _ (closed _ _ _ start found))).trans (kept.selectors dictionary found)
  methods dictionary methods found stored := by
    have dictionaryKnown := closed _ _ _ start found
    exact (pointers_congr (same _ (closed _ _ _ dictionaryKnown stored))).trans
      (kept.methods dictionary methods found stored)
  headers dictionary methods place method found stored fetched := by
    have methodsKnown := closed _ _ _ (closed _ _ _ start found) stored
    exact (methodHeader?_congr (same _ (closed _ _ _ methodsKnown fetched))).trans
      (kept.headers dictionary methods place method found stored fetched)

end Heap

namespace Registers

variable {registers last : Registers}

/-- The registers with the caches and the free contexts of other ones. -/
def withCaches (registers other : Registers) : Registers :=
  { registers with
    methodCache := other.methodCache
    atCache := other.atCache
    freeContexts := other.freeContexts
    freeLargeContexts := other.freeLargeContexts }

/-- Nothing but the caches and the free contexts is ever given up. -/
theorem eq_withCaches_of_flushed (flushed : Flushed registers last) :
    last = registers.withCaches last := by
  induction flushed with
  | refl => rfl
  | flush _ induction => exact congrArg forget induction

end Registers

namespace Machine

variable {machine before after : Machine} {selector species : Value}

/-! ## Searching again -/

/-- A search from a class finds in a machine what it found in another one: the classes are kept,
and the method cache has no further entries. -/
structure StillFinds (selector species : Value) (before after : Machine) : Prop where
  nil : after.registers.specials.nil = before.registers.specials.nil
  hash : after.heap.hashOf selector = before.heap.hashOf selector
  kept : ∀ above, before.heap.Ancestor species above →
    Heap.KeepsClass before.heap after.heap above
  cached : ∀ entry ∈ after.registers.methodCache.entries, entry.isVacant = false →
    entry ∈ before.registers.methodCache.entries

theorem StillFinds.refl : StillFinds selector species machine machine where
  nil := rfl
  hash := rfl
  kept _ _ := ⟨rfl, rfl, fun _ _ => rfl, fun _ _ _ _ => rfl, fun _ _ _ _ _ _ _ => rfl⟩
  cached _ member _ := member

theorem StillFinds.walks (still : StillFinds selector species before after)
    {answer : Except MemoryError (Option Value)}
    (walks : before.heap.Walks selector before.registers.specials.nil species answer) :
    after.heap.Walks selector after.registers.specials.nil species answer := by
  rw [still.nil]
  exact walks.transfer still.kept still.hash

/-- An entry that is still there says what the search found. -/
theorem StillFinds.confirms (still : StillFinds selector species before after)
    (faithful : before.Faithful) (isObject : selector.isSmall = false) {entry : CacheEntry}
    (present : after.registers.methodCache.find? selector species
      (after.heap.hashOf selector) (after.heap.hashOf species) = some entry) :
    entry.selector = selector ∧ entry.species = species ∧
      before.heap.Confirms before.registers.specials.nil entry := by
  rcases MethodCache.key_of_find? present with ⟨sent, sought⟩
  have used := CacheEntry.not_isVacant (sent ▸ isObject)
  exact ⟨sent, sought, faithful.confirms _
    (still.cached _ (MethodCache.mem_of_find? present used) used) used⟩

end Machine

/-- What a Message holds whose class has a description: the selector and the arguments, and the
class in which the lookup started if there is a field for it. -/
def ClassFormat.messageFields (format : ClassFormat) (selector arguments lookupClass : Value) :
    Array Value :=
  if MessageField.lookupClass < format.fieldCount then #[selector, arguments, lookupClass]
  else #[selector, arguments]

theorem ClassFormat.mem_messageFields (format : ClassFormat)
    (selector arguments lookupClass : Value) :
    arguments ∈ format.messageFields selector arguments lookupClass := by
  rw [messageFields]
  split <;> simp

namespace Machine

variable {machine after : Machine} {values : List Value} {arguments value : Value}

/-! ## Messages -/

/-- The class of arrays describes its instances as values that are reached by index only. -/
def HasArrays (machine : Machine) : Prop :=
  ∃ format, machine.heap.classFormat machine.registers.specials.arrayClass = .ok format ∧
    Format.isPointers format.instanceFormat ∧ format.fieldCount = 0

theorem NoDangling.anchors (sound : machine.NoDangling)
    (member : value ∈ machine.registers.forget.values) : machine.Anchors value :=
  anchors_of_mem member (sound.held value (Registers.mem_values_of_forget member))

/-- The method of the message being sent is searched for from a class. The arguments of the
message lie on the stack, and it is not the one that is sent in place of others. -/
structure Searching (machine : Machine) (species doesNotUnderstand : Value)
    (values : List Value) : Prop where
  sound : machine.NoDangling
  arrays : machine.HasArrays
  operands : machine.Operands values
  counted : machine.registers.argumentCount = values.length
  special : machine.heap.fetch machine.registers.specials.array Special.doesNotUnderstand
    = .ok doesNotUnderstand
  selectors : machine.registers.messageSelector.isSmall = false ∧ doesNotUnderstand.isSmall = false
  differs : machine.registers.messageSelector ≠ doesNotUnderstand
  start : machine.Anchors species
  unsearched : machine.heap.Unsearched species machine.registers.activeContext

/-- A machine in which only the heap and the registers are other ones. -/
theorem with_of_apart
    (apart : { after with heap := machine.heap, registers := machine.registers } = machine)
    (heap : Heap) (registers : Registers) :
    { after with heap, registers } = { machine with heap, registers } :=
  congrArg (fun machine : Machine => { machine with heap, registers }) apart

/-- The operands have been gathered in a new array. What the registers lead to is as it was. -/
structure Gathers (machine : Machine) (values : List Value) (arguments : Value)
    (after : Machine) : Prop where
  isArray : (after.heap.get? arguments).map HeapObject.species
    = some machine.registers.specials.arrayClass
  elements : after.heap.pointers arguments = .ok values.toArray
  flushed : Flushed machine.registers after.registers
  fresh : ∀ other, machine.Anchors other → other ≠ arguments
  same : ∀ other, machine.Anchors other → after.heap.get? other = machine.heap.get? other
  consistent : after.heap.Consistent
  apart : { after with heap := machine.heap, registers := machine.registers } = machine

theorem Searching.anchors {species doesNotUnderstand : Value}
    (searching : machine.Searching species doesNotUnderstand values) :
    machine.Anchors doesNotUnderstand :=
  anchors_of_fetch searching.sound.closed
    (searching.sound.anchors (by simp [Registers.values_forget, Specials.values]))
    searching.special

/-- What has been counted does not matter. -/
theorem Searching.withCacheCounts {species doesNotUnderstand : Value}
    (searching : machine.Searching species doesNotUnderstand values) (counts : CacheCounts) :
    (machine.withCacheCounts counts).Searching species doesNotUnderstand values where
  sound := ⟨searching.sound.consistent, searching.sound.closed, searching.sound.held⟩
  arrays := searching.arrays
  operands := ⟨searching.operands.depth, searching.operands.held⟩
  counted := searching.counted
  special := searching.special
  selectors := searching.selectors
  differs := searching.differs
  start := searching.start
  unsearched := searching.unsearched

theorem Gathers.anchors (gathers : machine.Gathers values arguments after)
    (anchored : machine.Anchors value) :
    after.Anchors value := anchored.replay gathers.flushed gathers.same

/-- The message being sent has been packed. A new array holds its arguments, and a new Message
tells of them and of the selector. The Message lies in the place of the arguments; apart from
that field of the stack, all that the registers led to is as it was. -/
structure Packs (machine : Machine) (species : Value) (values : List Value)
    (message arguments : Value) (heap : Heap) : Prop where
  isMessage : (heap.get? message).map HeapObject.species
    = some machine.registers.specials.messageClass
  fields : ∃ format,
    machine.heap.classFormat machine.registers.specials.messageClass = .ok format ∧
      heap.pointers message
        = .ok (format.messageFields machine.registers.messageSelector arguments species)
  isArray : (heap.get? arguments).map HeapObject.species
    = some machine.registers.specials.arrayClass
  elements : heap.pointers arguments = .ok values.toArray
  fresh : ∀ other, machine.Anchors other → other ≠ message ∧ other ≠ arguments
  top : heap.fetch machine.registers.activeContext (machine.registers.sp - values.length + 1)
    = .ok message
  elsewhere : ∀ place, place ≠ machine.registers.sp - values.length + 1 →
    heap.fetch machine.registers.activeContext place
      = machine.heap.fetch machine.registers.activeContext place
  others : ∀ other, machine.Anchors other →
    heap.get? other = (machine.heap.setField machine.registers.activeContext
      (machine.registers.sp - values.length + 1) message).get? other

/-- What the registers lead to includes the superclasses of a class that they lead to. -/
theorem Anchors.ancestor {species above : Value} (anchored : machine.Anchors species)
    (closed : machine.heap.Closed) (ancestor : machine.heap.Ancestor species above) :
    machine.Anchors above := by
  induction ancestor with
  | self => exact anchored
  | above _ next induction => exact anchors_of_fetch closed induction next

/-- Packing does not disturb a search that does not go through the stack. -/
theorem Packs.stillFinds {species doesNotUnderstand message : Value}
    (packs : machine.Packs species values message arguments after.heap)
    (searching : machine.Searching species doesNotUnderstand values)
    (nil : after.registers.specials.nil = machine.registers.specials.nil)
    (cached : ∀ entry ∈ after.registers.methodCache.entries, entry.isVacant = false →
      entry ∈ machine.registers.methodCache.entries) :
    StillFinds doesNotUnderstand species machine after where
  nil := nil
  hash := by
    rw [Heap.hashOf, packs.others _ searching.anchors, ← Heap.hashOf, Heap.hashOf_setField]
  kept above ancestor := by
    have closed := searching.sound.closed
    have alike : machine.LooksAlike doesNotUnderstand species machine := .of_heap rfl rfl
    have written := alike.setField searching.unsearched
      (Nat.succ_pos (machine.registers.sp - values.length)) message
    exact (written.kept above ancestor).congr packs.others (fun _ _ _ => anchors_of_fetch closed)
      (searching.start.ancestor closed ancestor)
  cached := cached

theorem Packs.of_counted {species message : Value} {heap : Heap} {counts : CacheCounts}
    (packs : (machine.withCacheCounts counts).Packs species values message arguments heap) :
    machine.Packs species values message arguments heap :=
  ⟨packs.isMessage, packs.fields, packs.isArray, packs.elements, packs.fresh, packs.top,
    packs.elsewhere, packs.others⟩

theorem Packs.textOf_eq {species message : Value}
    (packs : machine.Packs species values message arguments after.heap)
    (anchored : machine.Anchors value) : after.textOf value = machine.textOf value := by
  rw [textOf, packs.others value anchored, Heap.bytes?_setField]
  rfl

end Machine

namespace Run

open Machine

variable {machine before after : Machine} {selector species : Value}

/-- Where the search found nothing, a lookup finds nothing. -/
theorem lookupMethod_missing (still : StillFinds selector species before after)
    (faithful : before.Faithful) (isObject : selector.isSmall = false)
    (undefined : before.heap.Walks selector before.registers.specials.nil species (.ok none)) :
    ∃ counts, lookupMethod selector species after = .ok none (after.withCacheCounts counts) := by
  have walks := still.walks undefined
  have absent : after.registers.methodCache.find? selector species
      (after.heap.hashOf selector) (after.heap.hashOf species) = none := by
    cases present : after.registers.methodCache.find? selector species
        (after.heap.hashOf selector) (after.heap.hashOf species) with
    | none => rfl
    | some entry =>
      rcases still.confirms faithful isObject present with ⟨rfl, rfl, confirms⟩
      cases undefined.unique confirms.walks
  rcases walks.hasLineage with ⟨classes, lineage⟩
  let missed := after.withCacheCounts after.registers.methodCache.countMiss.counts
  rcases @methodFrom_walks missed selector species _ _ lineage rfl _ lineage.length_le with
    ⟨found, counts, again, walked⟩
  cases walks.unique again
  exact ⟨counts, (LookedUp.missing absent walked).lookupMethod_eq⟩

/-- A method that a lookup finds is the one that the search found. -/
theorem lookupMethod_found (still : StillFinds selector species before after)
    (faithful : before.Faithful) (isObject : selector.isSmall = false)
    (lineage : before.heap.HasLineage before.registers.specials.nil species)
    {entry : CacheEntry} {left : Machine}
    (looked : lookupMethod selector species after = .ok (some entry) left) :
    before.heap.Walks selector before.registers.specials.nil species (.ok (some entry.method)) ∧
      before.heap.primitiveOf entry.method = .ok entry.primitive ∧
      ∃ cache, left = after.withMethodCache cache := by
  have lookedUp := lookedUp_of_ok looked
  refine and_assoc.mp ⟨?_, _, lookedUp.cacheApart⟩
  cases lookedUp with
  | present held =>
    rcases still.confirms faithful isObject held with ⟨rfl, rfl, confirms⟩
    exact ⟨confirms.walks, confirms.primitive⟩
  | @found method header counts absent walked described =>
    rcases lineage with ⟨classes, lineage⟩
    rcases methodFrom_walks lineage rfl lineage.length_le with ⟨answer, -, walks, -⟩
    cases (still.walks walks).unique (methodFrom_ensures _ _ _ _ _ _ walked).2
    refine ⟨walks, ?_⟩
    rw [Heap.primitiveOf, ← walks.header_eq still.kept, described]
    rfl

/-! ## Packing -/

/-- What a registered object refers to is not freed for it. -/
theorem register_keeps (consistent : machine.heap.Consistent) (object : HeapObject) :
    (register object).Ensures machine fun value after =>
      ∀ other ∈ object.references, machine.heap.Holds other →
        other ≠ value ∧ after.heap.get? other = machine.heap.get? other := by
  refine (ensures_onHeap machine _).mono ?_
  rintro value _ ⟨rooted, registered, rfl⟩ other referred held
  obtain ⟨heap, slot, hash, rfl, survives, pending, places⟩ :=
    HeapM.register_cases consistent registered
  cases other with
  | small n => exact ⟨nofun, rfl⟩
  | object other =>
    have live : heap.Live other := pending _ referred held
    have different : other ≠ slot := fun same => places.dead (same ▸ live)
    exact ⟨fun same => different (Value.object.inj same),
      (places.others other different).trans (survives.cell other live)⟩

theorem instantiate_obtains (consistent : machine.heap.Consistent) (species nil : Value)
    (size : Nat) :
    (onHeap (HeapM.instantiate species size nil)).Ensures machine fun value after =>
      ∃ format, machine.heap.classFormat species = .ok format ∧
        machine.Obtains (format.instantiate species size nil) value after := by
  rw [HeapM.instantiate, onHeap_read]
  refine (ensures_readHeap machine _).bindTo fun description found => ?_
  cases known : description.int? with
  | none => exact .throw
  | some bits =>
    have described : machine.heap.classFormat species = .ok ⟨bits⟩ := by
      rw [Heap.classFormat, Heap.fetchInt_eq_ok_iff.mpr ⟨description, found, known⟩]
      rfl
    exact (register_obtains consistent _).mono fun _ _ obtains => ⟨⟨bits⟩, described, obtains⟩

theorem messageHasLookupClass_reads (machine : Machine) :
    messageHasLookupClass.Ensures machine fun has after => after = machine ∧
      ∃ format, machine.heap.classFormat machine.registers.specials.messageClass = .ok format ∧
        has = decide (MessageField.lookupClass < format.fieldCount) := by
  refine (ensures_getRegisters machine).bindExactly ?_
  refine (ensures_readHeap machine _).bindTo fun format known => ?_
  exact .pure ⟨rfl, format, known, rfl⟩

/-- The operands that are copied into a new array are its elements. -/
theorem copyOperands_lists {values : List Value} {target nil : Value}
    (operands : machine.Operands values) (apart : machine.registers.activeContext ≠ target)
    (blank : machine.heap.pointers target = .ok (Array.replicate values.length nil)) :
    (copyOperands target values.length 0).Ensures machine fun _ after => ∃ heap,
      after = machine.withHeap heap ∧ machine.heap.Rewrites target heap ∧
        heap.pointers target = .ok values.toArray := by
  refine (copyOperands_fills apart _ _).mono ?_
  rintro _ _ ⟨heap, rfl, rewrites, copied, -⟩
  rcases rewrites.readable blank with ⟨elements, readable, size⟩
  rw [Array.size_replicate] at size
  refine ⟨heap, rfl, rewrites,
    readable.trans (congrArg _ (Array.ext size fun index inside _ => ?_))⟩
  have few : index < values.length := size ▸ inside
  have fetched := (copied index few).trans (operands.operand few).2
  rw [Nat.zero_add] at fetched
  rcases Heap.fetch_eq_ok_iff.mp fetched with ⟨fields, again, held⟩
  cases readable.symm.trans again
  rw [Array.getElem?_eq_getElem inside] at held
  exact Option.some.inj held

/-- A new array into which the operands were copied has gathered them. -/
theorem gathers_of_obtains {values : List Value} {format : ClassFormat} {arguments nil : Value}
    {first : Machine} {heap : Heap}
    (obtains : machine.Obtains
      (format.instantiate machine.registers.specials.arrayClass values.length nil) arguments first)
    (rewrites : first.heap.Rewrites arguments heap) (consistent : heap.Consistent)
    (elements : heap.pointers arguments = .ok values.toArray) :
    machine.Gathers values arguments (first.withHeap heap) where
  isArray := by
    rcases obtains.made with ⟨hash, made⟩
    refine rewrites.species.trans ?_
    rw [made, Option.map_some, Option.some.injEq, ClassFormat.instantiate]
    split_ifs <;> rfl
  elements := elements
  flushed := obtains.flushed
  fresh := obtains.fresh
  same other anchored :=
    (rewrites.others other (obtains.fresh other anchored)).trans (obtains.same other anchored)
  consistent := consistent
  apart := obtains.apart

/-- An object is registered and put in place of operands. -/
theorem register_replaces (consistent : machine.heap.Consistent) (object : HeapObject)
    (count : Nat) :
    (do
      let value ← register object
      drop count
      push value
      modifyRegisters fun registers => { registers with argumentCount := 1 } : Run Unit).Ensures
        machine fun _ after => ∃ value made, machine.Obtains object value made ∧
          (∀ other ∈ object.references, machine.heap.Holds other →
            other ≠ value ∧ made.heap.get? other = machine.heap.get? other) ∧
          after.heap.fetch made.registers.activeContext (made.registers.sp - count + 1)
            = .ok value ∧
          after = { made with
            heap := made.heap.setField made.registers.activeContext
              (made.registers.sp - count + 1) value
            registers.sp := made.registers.sp - count + 1
            registers.argumentCount := 1 } := by
  refine ((register_obtains consistent object).and (register_keeps consistent object)).bind
    fun value made ⟨obtains, kept⟩ => ?_
  refine (ensures_drop made count).bindChange fun _ => ?_
  refine (ensures_push _ value).bind fun _ _ ⟨top, same⟩ => ?_
  subst same
  refine (ensures_modifyRegisters _ _).mono ?_
  rintro _ _ rfl
  exact ⟨value, made, obtains, kept, top, rfl⟩

theorem store_consistent (object : Value) (index : Nat) (value : Value) :
    Maintains (fun machine => machine.heap.Consistent) (store object index value) fun _ => True :=
  fun machine consistent => (ensures_store machine object index value).mono <| by
    rintro _ _ ⟨-, rfl⟩
    exact ⟨Heap.consistent_update consistent _ _, trivial⟩

/-- The operands are gathered before anything else happens. -/
theorem gather_then {β : Type} {values : List Value} {next : Value → Run β}
    {post : β → Machine → Prop} (sound : machine.NoDangling) (arrays : machine.HasArrays)
    (operands : machine.Operands values)
    (rest : ∀ arguments after, machine.Gathers values arguments after →
      (next arguments).Ensures after post) :
    (do
      let arguments ← onHeap (HeapM.instantiate machine.registers.specials.arrayClass
        values.length machine.registers.specials.nil)
      copyOperands arguments values.length 0
      next arguments).Ensures machine post := by
  refine (instantiate_obtains sound.consistent _ _ _).bind ?_
  rintro arguments first ⟨format, described, obtains⟩
  rcases Registers.frame_of_forget (Registers.forget_of_flushed obtains.flushed) with
    ⟨active, -, -, -, -, sp, -⟩
  have onStack : machine.Anchors machine.registers.activeContext :=
    sound.anchors (by simp [Registers.values_forget])
  have still : first.Operands values := by
    refine ⟨sp ▸ operands.depth, fun index inside => ?_⟩
    rw [active, sp, Heap.fetch_congr (obtains.same _ onStack)]
    exact operands.held index inside
  have blank : first.heap.pointers arguments
      = .ok (Array.replicate values.length machine.registers.specials.nil) := by
    rcases arrays with ⟨known, again, isPointers, named⟩
    cases described.symm.trans again
    rcases obtains.made with ⟨hash, made⟩
    refine Heap.pointers_eq_ok_iff.mpr ⟨_, made, ?_⟩
    rw [ClassFormat.instantiate, if_pos isPointers, named, Nat.zero_add]
    rfl
  have apart : first.registers.activeContext ≠ arguments := active ▸ obtains.fresh _ onStack
  refine ((copyOperands_lists still apart blank).and
    (copyOperands_maintains store_consistent arguments _ 0 first obtains.consistent)).bind ?_
  rintro _ _ ⟨⟨heap, rfl, rewrites, elements⟩, consistent, -⟩
  exact rest _ _ (gathers_of_obtains obtains rewrites consistent elements)

/-- The Message that is registered for the gathered arguments and put in their place. -/
theorem packs_of_obtains {values : List Value} {species message arguments : Value}
    {second third : Machine} {format : ClassFormat} {code : Nat} (sound : machine.NoDangling)
    (gathers : machine.Gathers values arguments second)
    (described : machine.heap.classFormat machine.registers.specials.messageClass = .ok format)
    (obtains : second.Obtains
      { species := machine.registers.specials.messageClass
        format := code
        body := .pointers
          (format.messageFields machine.registers.messageSelector arguments species) }
      message third)
    (kept : third.heap.get? arguments = second.heap.get? arguments)
    (top : (third.heap.setField machine.registers.activeContext
      (machine.registers.sp - values.length + 1) message).fetch machine.registers.activeContext
        (machine.registers.sp - values.length + 1) = .ok message) :
    machine.Packs species values message arguments
      (third.heap.setField machine.registers.activeContext
        (machine.registers.sp - values.length + 1) message) := by
  have onStack : machine.Anchors machine.registers.activeContext :=
    sound.anchors (by simp [Registers.values_forget])
  have fresh (other : Value) (anchored : machine.Anchors other) :
      other ≠ message ∧ other ≠ arguments :=
    ⟨obtains.fresh _ (gathers.anchors anchored), gathers.fresh other anchored⟩
  -- Neither the Message nor the array is the context that is written to.
  have rewrites := Heap.Rewrites.setField third.heap machine.registers.activeContext
    (machine.registers.sp - values.length + 1) message
  have messageHere := rewrites.others message (fresh _ onStack).1.symm
  have argumentsHere := (rewrites.others arguments (fresh _ onStack).2.symm).trans kept
  have others (other : Value) (anchored : machine.Anchors other) :
      third.heap.get? other = machine.heap.get? other :=
    (obtains.same other (gathers.anchors anchored)).trans (gathers.same other anchored)
  rcases obtains.made with ⟨hash, made⟩
  exact
    { isMessage := congrArg (Option.map HeapObject.species) (messageHere.trans made)
      fields := ⟨format, described,
        Heap.pointers_eq_ok_iff.mpr ⟨_, messageHere.trans made, rfl⟩⟩
      isArray := (congrArg (Option.map HeapObject.species) argumentsHere).trans gathers.isArray
      elements := (Heap.pointers_congr argumentsHere).trans gathers.elements
      fresh
      top
      elsewhere := fun place different => (Heap.fetch_setField_other (.inr different.symm)).trans
        (Heap.fetch_congr (others _ onStack) place)
      others := fun other anchored => Heap.get?_setField_congr (others other anchored) _ _ _ }

/-- A message is packed, whatever is collected meanwhile. -/
theorem packMessage_packs {values : List Value} (sound : machine.NoDangling)
    (arrays : machine.HasArrays) (operands : machine.Operands values)
    (counted : machine.registers.argumentCount = values.length) (species : Value) :
    (packMessage species).Ensures machine fun _ after => ∃ message arguments left,
      machine.Packs species values message arguments after.heap ∧
      Flushed machine.registers left ∧
      after = { machine with
        heap := after.heap
        registers := { left with
          sp := machine.registers.sp - values.length + 1
          argumentCount := 1 } } := by
  refine (ensures_getRegisters machine).bindExactly ?_
  rw [counted]
  refine gather_then sound arrays operands fun arguments gathered gathers => ?_
  refine (messageHasLookupClass_reads gathered).bind ?_
  rintro has second ⟨rfl, format, found, rfl⟩
  have described : machine.heap.classFormat machine.registers.specials.messageClass
      = .ok format := by
    have specials := (Registers.cached_of_flushed gathers.flushed).1
    have same := gathers.same machine.registers.specials.messageClass
      (sound.anchors (by simp [Registers.values_forget, Specials.values]))
    rw [← found, specials, Heap.classFormat, Heap.classFormat, Heap.fetchInt_congr same]
  simp only [decide_eq_true_eq]
  refine (register_replaces gathers.consistent _ _).mono ?_
  rintro _ after ⟨message, third, obtains, kept, top, same⟩
  have flushed := gathers.flushed.trans obtains.flushed
  rcases Registers.frame_of_forget (Registers.forget_of_flushed flushed) with
    ⟨active, -, -, -, -, sp, -⟩
  rw [active, sp] at top same
  subst same
  refine ⟨message, arguments, third.registers, ?_, flushed, ?_⟩
  · refine packs_of_obtains sound gathers described obtains (kept arguments ?_ ?_).2 top
    · exact List.mem_cons_of_mem _ (Array.mem_toList_iff.mpr (format.mem_messageFields ..))
    · rcases Heap.pointers_eq_ok_iff.mp gathers.elements with ⟨array, here, -⟩
      exact Heap.holds_of_get? here
  · exact (with_of_apart obtains.apart _ _).trans (with_of_apart gathers.apart _ _)

/-- Packing a message stops in memory only. -/
theorem packMessage_stops (species : Value) (machine : Machine) :
    Stops (fun stop _ => ∃ error, stop = .error (.memory error)) (packMessage species) machine := by
  have memory (error : MemoryError) (_ : Machine) :
      ∃ same, Stop.error (.memory error) = .error (.memory same) := ⟨error, rfl⟩
  have copied (target : Value) (count index : Nat) (machine : Machine) :
      Stops (fun stop _ => ∃ error, stop = .error (.memory error))
        (copyOperands target count index) machine := by
    induction count generalizing index machine with
    | zero => exact .pure
    | succ count induction =>
      refine (operand_stops memory _ _).andThen fun value between => ?_
      exact (store_stops memory _ _ _ _).andThen fun _ _ => induction _ _
  refine .bindOk getRegisters_apply ?_
  refine (onHeap_stops memory _ _).andThen fun arguments _ => (copied _ _ _ _).andThen fun _ _ => ?_
  have described (machine : Machine) :
      Stops (fun stop _ => ∃ error, stop = .error (.memory error)) messageHasLookupClass machine :=
    .bindOk getRegisters_apply ((readHeap_stops memory _ _).andThen fun _ _ => .pure)
  refine (described _).andThen fun _ _ => (onHeap_stops memory _ _).andThen fun message _ => ?_
  refine .bindOk (modifyRegisters_apply _) ((push_stops memory _ _).andThen fun _ _ => ?_)
  exact .of_ok (modifyRegisters_apply _)

/-! ## Resending -/

/-- Send the message that has no method as another one. -/
def resend (doesNotUnderstand species : Value) : Run Unit := do
  packMessage species
  modifyRegisters fun registers => { registers with messageSelector := doesNotUnderstand }
  unless ← resolveMessage species do failUnderstanding doesNotUnderstand

section

variable (sent : after.registers.messageSelector = selector)
  (still : StillFinds selector species before after) (faithful : before.Faithful)
  (isObject : selector.isSmall = false)

include sent still faithful isObject

theorem resolveMessage_missing
    (undefined : before.heap.Walks selector before.registers.specials.nil species (.ok none)) :
    ∃ counts, resolveMessage species after = .ok false (after.withCacheCounts counts) := by
  subst sent
  rcases lookupMethod_missing still faithful isObject undefined with ⟨counts, missed⟩
  exact ⟨counts, (bind_ok getRegisters_apply).trans (bind_ok missed)⟩

theorem resolveMessage_found
    (lineage : before.heap.HasLineage before.registers.specials.nil species) :
    (resolveMessage species).Ensures after fun found left => found = true →
      ∃ method primitive methodCache,
        before.heap.Walks selector before.registers.specials.nil species (.ok (some method)) ∧
        before.heap.primitiveOf method = .ok primitive ∧
        left = { after with registers := { after.registers with
          newMethod := method
          primitiveIndex := primitive
          methodCache } } := by
  subst sent
  refine (ensures_getRegisters after).bindExactly ?_
  refine Ensures.bind (fun _ _ looked => looked) fun found between looked => ?_
  cases found with
  | none => exact .pure nofun
  | some entry =>
    rcases lookupMethod_found still faithful isObject lineage looked with
      ⟨walks, primitive, cache, rfl⟩
    refine (ensures_modifyRegisters _ _).bindChange fun _ => ?_
    exact .pure fun _ => ⟨_, _, _, walks, primitive, rfl⟩

end

section

variable {doesNotUnderstand : Value} {values : List Value}
  (searching : machine.Searching species doesNotUnderstand values)

include searching

/-- The second search goes on in the classes of the first one. -/
theorem packMessage_stillFinds :
    (packMessage species).Ensures machine fun _ after => ∃ message arguments other,
      machine.Packs species values message arguments after.heap ∧
      after = { machine with
        heap := after.heap
        registers := { machine.registers with
          sp := machine.registers.sp - values.length + 1
          argumentCount := 1 }.withCaches other } ∧
      StillFinds doesNotUnderstand species machine
        { after with registers.messageSelector := doesNotUnderstand } := by
  refine (packMessage_packs searching.sound searching.arrays searching.operands searching.counted
    species).mono ?_
  rintro _ after ⟨message, arguments, left, packs, flushed, same⟩
  refine ⟨message, arguments, left, packs, ?_, ?_⟩
  · rw [same, Registers.eq_withCaches_of_flushed flushed]
    rfl
  · rcases Registers.cached_of_flushed flushed with ⟨specials, cached⟩
    rw [same] at packs ⊢
    exact @Packs.stillFinds _ _ _ _ _ _ _ packs searching (congrArg Specials.nil specials) cached

/-- A message for which nothing is found is resent. -/
theorem findMethodBy_of_missing {counts : CacheCounts}
    (missed : resolveMessage species machine = .ok false (machine.withCacheCounts counts)) :
    findMethodBy resolveMessage species machine
      = resend doesNotUnderstand species (machine.withCacheCounts counts) := by
  have known : specialObject Special.doesNotUnderstand (machine.withCacheCounts counts)
      = .ok doesNotUnderstand (machine.withCacheCounts counts) :=
    (bind_ok getRegisters_apply).trans (fetch_ok searching.special)
  refine (bind_ok missed).trans ((bind_ok getRegisters_apply).trans ((bind_ok known).trans ?_))
  exact congrFun (if_neg searching.differs) _

variable (faithful : machine.Faithful)

include faithful

/-- What is sent instead has a method, the message is packed, and nothing else has changed. -/
theorem resend_ensures
    (lineage : machine.heap.HasLineage machine.registers.specials.nil species) :
    (resend doesNotUnderstand species).Ensures machine fun _ after =>
      ∃ method primitive message arguments,
        machine.heap.Walks doesNotUnderstand machine.registers.specials.nil species
          (.ok (some method)) ∧
        machine.heap.primitiveOf method = .ok primitive ∧
        machine.Packs species values message arguments after.heap ∧
        after = { machine with
          heap := after.heap
          registers := { machine.registers with
            messageSelector := doesNotUnderstand
            argumentCount := 1
            sp := machine.registers.sp - values.length + 1
            newMethod := method
            primitiveIndex := primitive }.withCaches after.registers } := by
  refine (packMessage_stillFinds searching).bind ?_
  rintro _ packed ⟨message, arguments, other, packs, same, still⟩
  refine (ensures_modifyRegisters packed _).bindChange fun _ => ?_
  refine (resolveMessage_found rfl still faithful searching.selectors.2 lineage).bind
    fun found left answers => ?_
  split
  · rename_i answered
    rcases answers answered with ⟨method, primitive, methodCache, walks, known, rfl⟩
    refine .pure ⟨method, primitive, message, arguments, walks, known, packs, ?_⟩
    rw [same]
    rfl
  · exact (failUnderstanding_ensures left _).mono fun _ _ => False.elim

/-- Without a method for what is sent instead, either memory does not suffice for the Message or
the error names that other message. -/
theorem resend_fails
    (undefined : machine.heap.Walks doesNotUnderstand machine.registers.specials.nil species
      (.ok none)) :
    ∃ stop after, resend doesNotUnderstand species machine = .error stop after ∧
      (stop = .error (.recursiveDoesNotUnderstand (machine.textOf doesNotUnderstand)) ∨
        packMessage species machine = .error stop after ∧
          ∃ error, stop = .error (.memory error)) := by
  cases packed : packMessage species machine with
  | error stop after =>
    exact ⟨stop, after, bind_error packed, .inr ⟨rfl, packMessage_stops species _ _ _ packed⟩⟩
  | ok _ after =>
    rcases packMessage_stillFinds searching _ _ packed with
      ⟨message, arguments, other, packs, -, still⟩
    let renamed : Machine := { after with registers.messageSelector := doesNotUnderstand }
    have sent : renamed.registers.messageSelector = doesNotUnderstand := rfl
    rcases resolveMessage_missing sent still faithful searching.selectors.2 undefined with
      ⟨counts, missed⟩
    rw [← packs.textOf_eq searching.anchors]
    refine ⟨_, renamed.withCacheCounts counts, ?_, .inl rfl⟩
    exact (bind_ok packed).trans ((bind_ok (modifyRegisters_apply _)).trans (bind_ok missed))

end

/-- A machine that searches for the method of a message with some arguments from a class at the
top, whose dictionary has a method for one other selector. Two objects in the full table are
needed by nobody. -/
def puzzledMachine (known : Value) (arguments : List Value) (methodCache : MethodCache) : Machine :=
  let nil : Value := .object 0
  let node := Machine.sampleNode .zero
  let specials := Array.replicate Special.count nil
  let machine := Machine.sampleMachine
    [node #[], node #[nil, .object 2, .zero], node #[.zero, .object 3, known],
      node #[.object 5], node #[], oneArgumentMethod, Machine.sampleMethod 0 [] #[120],
      node #[nil, nil, nil, .object 6, nil, .object 8, .object 8, .object 9, .zero],
      Machine.sampleNode (.object 1) #[], node #[],
      node #[nil, nil, (ClassFormat.pack 0 Format.indexable).value],
      node #[nil, nil, (ClassFormat.pack 3 Format.fixed).value],
      node (specials.setIfInBounds Special.doesNotUnderstand (.object 4)), node #[], node #[]]
    15 nil
  { machine with
    registers := { machine.registers with
      specials.array := .object 12
      specials.arrayClass := .object 10
      specials.messageClass := .object 11
      sp := 8
      messageSelector := .object 9
      lookupClass := .object 1
      argumentCount := arguments.length
      methodCache } }

theorem searching_puzzledMachine {known : Value} {arguments : List Value}
    {methodCache : MethodCache} (sound : (puzzledMachine known arguments methodCache).NoDangling)
    (operands : (puzzledMachine known arguments methodCache).Operands arguments) :
    (puzzledMachine known arguments methodCache).Searching (.object 1) (.object 4) arguments where
  sound := sound
  arrays := ⟨ClassFormat.pack 0 Format.indexable, rfl, by decide, by decide⟩
  operands := operands
  counted := rfl
  special := rfl
  selectors := ⟨rfl, rfl⟩
  differs := show Value.object 9 ≠ .object 4 by decide
  start := sound.anchors (by simp [Registers.values_forget, puzzledMachine])
  unsearched := by
    have apart : Value.object 7 ∉ [.object 1, .object 0, .object 2, .object 3] := by decide
    exact .of_top rfl rfl rfl rfl apart

/-- The class of the receiver has no method for the message. -/
theorem walks_puzzledMachine {known : Value} {arguments : List Value} {methodCache : MethodCache}
    (missing : (puzzledMachine known arguments methodCache).heap.ownMethod (.object 9) (.object 0)
      (.object 1) = .ok none) :
    (puzzledMachine known arguments methodCache).heap.Walks (.object 9) (.object 0) (.object 1)
      (.ok none) := .inherited (by decide) missing rfl .ended

/-- A machine whose active context is also the method dictionary of the class. Where an argument
lies on the stack, that dictionary has `doesNotUnderstand:`. -/
def tangledMachine : Machine :=
  let machine := puzzledMachine (.object 4) [.object 4, .zero] (.ofSize 1 1)
  let writes : List (Nat × Nat × Nat) :=
    [(1, 0, 10), (1, 1, 7), (10, 1, 2), (7, 1, 12), (7, 2, 8), (7, 4, 8), (7, 7, 4)]
  machine.withHeap <| writes.foldl (fun heap (object, index, value) =>
    heap.setField (.object object) index (.object value)) machine.heap

end Run

end Smalltalk

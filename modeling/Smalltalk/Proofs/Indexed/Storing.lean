import Smalltalk.Proofs.Indexed.Reading
import Smalltalk.Proofs.Machine.References

namespace Smalltalk

/-! What `at:put:` stores is what `at:` answers for afterwards. A value that cannot be an
element of its kind, or an index without an element, changes nothing. -/

/-! ## Slots -/

/-- A body after one of its slots has been written to. -/
def Datum.put (slot : Nat) : Datum → Body → Body
  | .value content => .mapPointers (·.setIfInBounds slot content)
  | .word content => .mapWords (·.setIfInBounds slot content)
  | .byte content => .mapBytes (·.setIfInBounds slot content)

namespace Datum

theorem sameShape_put (datum : Datum) (slot : Nat) (body : Body) :
    body.SameShape (datum.put slot body) := by
  cases datum with
  | value content => exact .mapPointers body fun _ _ => Array.size_setIfInBounds
  | word content => exact .mapWords body fun _ _ => Array.size_setIfInBounds
  | byte content => exact .mapBytes body fun _ _ => Array.size_setIfInBounds

/-- Of the slots of a body of its kind only the one that is written to is different. -/
theorem datum?_put {part : IndexedPart} {body : Body} {datum : Datum} {slot : Nat}
    (isOf : part.IsOf body) (holds : part.kind.Holds datum) (inside : slot < body.slotCount)
    (other : Nat) :
    (datum.put slot body).datum? other
      = if other = slot then some datum else body.datum? other := by
  cases isOf <;> cases holds <;>
    · simp only [put, Body.mapPointers, Body.mapWords, Body.mapBytes, Body.datum?]
      split
      · rename_i same
        subst same
        rw [Array.getElem?_setIfInBounds_self_of_lt inside, Option.map_some]
      · rename_i different
        rw [Array.getElem?_setIfInBounds_ne (Ne.symm different)]

end Datum

/-- An entry that can be fetched can be fetched after the writing, too. -/
theorem Heap.Overwrites.exists_fetch {before after : Heap} {value object : Value} {index : Nat}
    (overwrites : before.Overwrites value after)
    (fetched : ∃ content, before.fetch object index = .ok content) :
    ∃ content, after.fetch object index = .ok content := by
  rcases overwrites.fetch object index with same | new
  · exact fetched.imp fun _ known => same.trans known
  · exact ⟨value, new⟩

namespace Machine

/-! ## Elements -/

/-- What a value is as an element of some kind. In a string it is a Character, for whose
number there has to be a byte. -/
inductive StandsFor (machine : Machine) : IndexedKind → Value → Datum → Prop
  | value (content : Value) : StandsFor machine .pointers content (.value content)
  | number {value : Value} {word : UInt32} (number : machine.number? value = some word.toNat) :
      StandsFor machine .words value (.word word)
  | byte {value : Value} {byte : UInt8} (number : value.int? = some (byte.toNat : Int)) :
      StandsFor machine .bytes value (.byte byte)
  | character {value code : Value} {owner : HeapObject} {byte : UInt8}
      (here : machine.heap.get? value = some owner)
      (isCharacter : owner.species = machine.registers.specials.characterClass)
      (held : machine.heap.fetch value CharacterField.value = .ok code)
      (number : code.int? = some (byte.toNat : Int)) :
      StandsFor machine .chars value (.byte byte)

theorem StandsFor.holds {machine : Machine} {kind : IndexedKind} {value : Value} {datum : Datum}
    (stands : machine.StandsFor kind value datum) : kind.Holds datum := by
  cases stands <;> constructor

theorem StandsFor.overwrites {machine : Machine} {kind : IndexedKind} {value : Value}
    {datum : Datum} (stands : machine.StandsFor kind value datum) (heap : Heap) (object : Value)
    (slot : Nat) : heap.Overwrites value (heap.updateBody object (datum.put slot)) := by
  cases stands with
  | value content => exact .setField heap object slot
  | @number _ word number =>
    exact .updateBody heap object (Datum.sameShape_put (.word word) slot)
      fun body => Body.pointers?_mapWords _ body
  | @byte _ byte number | @character _ _ _ byte _ _ _ number =>
    exact .updateBody heap object (Datum.sameShape_put (.byte byte) slot)
      fun body => Body.pointers?_mapBytes _ body

/-- What is to be an element of a string cannot be looked at: it is a Character without a
field for its number, or a reference to nothing. -/
def IsUnreadable (machine : Machine) (kind : IndexedKind) (value : Value) : Prop :=
  kind = .chars ∧ value.isSmall = false ∧ ∀ owner, machine.heap.get? value = some owner →
    owner.species = machine.registers.specials.characterClass ∧
      ∀ code, machine.heap.fetch value CharacterField.value ≠ .ok code

end Machine

namespace Reply

open Run

variable {machine : Machine} {part : IndexedPart} {owner : HeapObject} {place : Nat}
  {value : Value} {datum : Datum}

theorem setWord_apply {object : Value} {slot : Nat} {data : Array UInt32} (word : UInt32)
    (here : machine.heap.get? object = some owner) (body : owner.body = .words data)
    (inside : slot < data.size) :
    setWord object slot word machine = .ok ()
      (machine.withHeap (machine.heap.updateBody object (Datum.put slot (.word word)))) := by
  refine (bind_ok (object_ok here)).trans ?_
  simp only [HeapObject.words?, body, Body.words?]
  rw [if_neg (by omega)]
  rfl

theorem setByte_apply {object : Value} {slot : Nat} {data : Array UInt8} (byte : UInt8)
    (here : machine.heap.get? object = some owner) (body : owner.body = .bytes data)
    (inside : slot < data.size) :
    setByte object slot byte machine = .ok ()
      (machine.withHeap (machine.heap.updateBody object (Datum.put slot (.byte byte)))) := by
  refine (bind_ok (object_ok here)).trans ?_
  simp only [HeapObject.bytes?, body, Body.bytes?]
  rw [if_neg (by omega)]
  rfl

/-- What the primitives find out about a Character. -/
theorem characterCode_apply (readable : ¬ machine.IsUnreadable .chars value) :
    ∃ code, characterCode value machine = .ok code machine ∧ ∀ byte : UInt8,
      code = some (byte.toNat : Int) ↔ machine.StandsFor .chars value (.byte byte) := by
  cases value with
  | small n =>
    refine ⟨none, rfl, fun byte => ⟨nofun, fun stands => ?_⟩⟩
    cases stands with
    | character here => cases here
  | object slot =>
    cases here : machine.heap.get? (.object slot) with
    | none =>
      refine absurd ⟨rfl, rfl, fun owner there => ?_⟩ readable
      rw [here] at there
      cases there
    | some owner =>
      by_cases isCharacter : owner.species = machine.registers.specials.characterClass
      · cases held : machine.heap.fetch (.object slot) CharacterField.value with
        | error error =>
          refine absurd ⟨rfl, rfl, fun same there => ?_⟩ readable
          obtain rfl := Option.some.inj (here.symm.trans there)
          refine ⟨isCharacter, fun code found => ?_⟩
          rw [held] at found
          cases found
        | ok code =>
          refine ⟨code.int?, ?_, fun byte => ⟨fun number => ?_, fun stands => ?_⟩⟩
          · refine (bind_ok (classOf_object here)).trans ((bind_ok getRegisters_apply).trans ?_)
            rw [if_neg (not_not.mpr isCharacter)]
            exact bind_ok (fetch_ok held)
          · exact .character here isCharacter held number
          · cases stands with
            | character _ _ again number =>
              cases Except.ok.inj (held.symm.trans again)
              exact number
      · refine ⟨none, ?_, fun byte => ⟨nofun, fun stands => ?_⟩⟩
        · refine (bind_ok (classOf_object here)).trans ((bind_ok getRegisters_apply).trans ?_)
          rw [if_pos isCharacter]
          rfl
        · cases stands with
          | character there same =>
            cases Option.some.inj (here.symm.trans there)
            exact absurd same isCharacter

theorem characterCode_refused (unreadable : machine.IsUnreadable .chars value) :
    ∃ error, characterCode value machine = .error (.error (.memory error)) machine := by
  rcases unreadable with ⟨-, isObject, unreadable⟩
  rw [characterCode, isObject]
  cases value with
  | small n => cases isObject
  | object slot =>
    cases here : machine.heap.get? (.object slot) with
    | none =>
      have lost : machine.heap.object (.object slot)
          = .error (.invalidReference (.object slot)) := by
        rw [Heap.object, here]
      exact ⟨_, bind_error (bind_error (readHeap_error lost))⟩
    | some owner =>
      rcases unreadable owner here with ⟨isCharacter, lacking⟩
      cases held : machine.heap.fetch (.object slot) CharacterField.value with
      | ok code => exact absurd held (lacking code)
      | error error =>
        refine ⟨error, (bind_ok (classOf_object here)).trans
          ((bind_ok getRegisters_apply).trans ?_)⟩
        rw [if_neg (not_not.mpr isCharacter)]
        exact bind_error (fetch_error held)

/-! ## Writing -/

/-- A value that stands for an element is written. -/
theorem writeElement_puts (here : machine.heap.get? part.object = some owner)
    (isOf : part.IsOf owner.body) (inside : place < part.size)
    (stands : machine.StandsFor part.kind value datum) :
    writeElement part place value machine = .ok true (machine.withHeap
      (machine.heap.updateBody part.object (datum.put (part.fixed + place)))) := by
  have bounded := isOf.inside inside
  have kinds := isOf.kinds
  have isByte (byte : UInt8) : ¬ ((byte.toNat : Int) < 0 ∨ 255 < (byte.toNat : Int)) := by
    have := byte.toNat_lt
    omega
  have same (byte : UInt8) : UInt8.ofNat (byte.toNat : Int).toNat = byte := by simp
  generalize known : part.kind = kind at stands kinds
  rw [writeElement, known]
  cases stands with
  | value content =>
    rcases kinds with ⟨fields, body⟩
    rw [body] at bounded
    have readable : machine.heap.pointers part.object = .ok fields :=
      Heap.pointers_eq_ok_iff.mpr ⟨owner, here, by rw [HeapObject.pointers?, body]; rfl⟩
    have stored : machine.heap.store part.object (part.fixed + place) value
        = .ok (machine.heap.setField part.object (part.fixed + place) value) :=
      Heap.store_eq_ok_iff.mpr ⟨⟨fields, readable, bounded⟩, rfl⟩
    have written : store part.object (part.fixed + place) value machine = .ok ()
        (machine.withHeap (machine.heap.setField part.object (part.fixed + place) value)) := by
      simp only [store, stored]
      rfl
    exact bind_ok written
  | @number _ word number =>
    rcases kinds with ⟨data, body⟩
    rw [body] at bounded
    refine (bind_ok wordOf_apply).trans ?_
    rw [number, Option.map_some, UInt32.ofNat_toNat]
    exact bind_ok (setWord_apply word here body bounded)
  | @byte _ byte number =>
    rcases kinds with ⟨data, body⟩
    rw [body] at bounded
    dsimp only
    rw [number]
    dsimp only
    rw [if_neg (isByte byte), same]
    exact bind_ok (setByte_apply byte here body bounded)
  | @character _ _ _ byte there isCharacter held number =>
    rcases kinds with ⟨data, body⟩
    rw [body] at bounded
    have readable : ¬ machine.IsUnreadable .chars value := fun unreadable =>
      (unreadable.2.2 _ there).2 _ held
    rcases characterCode_apply readable with ⟨code, read, isCode⟩
    refine (bind_ok read).trans ?_
    rw [(isCode byte).mpr (.character there isCharacter held number)]
    dsimp only
    rw [if_neg (isByte byte), same]
    exact bind_ok (setByte_apply byte here body bounded)

/-- A value that stands for no element is refused. -/
theorem writeElement_refuses (readable : ¬ machine.IsUnreadable part.kind value)
    (unfit : ∀ datum, ¬ machine.StandsFor part.kind value datum) :
    writeElement part place value machine = .ok false machine := by
  -- What is no byte is refused, both as a number and as the number of a Character.
  have refused (code : Int) (outside : ∀ byte : UInt8, code ≠ byte.toNat) : (do
      if code < 0 ∨ 255 < code then return false
      setByte part.object (part.fixed + place) (UInt8.ofNat code.toNat)
      return true : Run Bool) machine = .ok false machine := by
    rw [if_pos]
    · rfl
    · by_contra inside
      refine outside (UInt8.ofNat code.toNat) ?_
      rw [UInt8.toNat_ofNat']
      omega
  generalize known : part.kind = kind at readable unfit
  rw [writeElement, known]
  cases kind with
  | pointers => exact absurd (.value value) (unfit _)
  | words =>
    refine (bind_ok wordOf_apply).trans ?_
    cases number : machine.number? value with
    | none => rfl
    | some n =>
      have word : (UInt32.ofNat n).toNat = n :=
        UInt32.toNat_ofNat_of_lt' (Machine.number?_lt number)
      exact absurd (.number (by rw [number, word])) (unfit (.word (UInt32.ofNat n)))
  | bytes =>
    dsimp only
    cases number : value.int? with
    | none => rfl
    | some code =>
      refine refused code fun byte same => unfit (.byte byte) (.byte ?_)
      rw [number, same]
  | chars =>
    rcases characterCode_apply readable with ⟨code, read, isCode⟩
    refine (bind_ok read).trans ?_
    cases code with
    | none => rfl
    | some code =>
      exact refused code fun byte same => unfit _ ((isCode byte).mp (congrArg some same))

theorem writeElement_stops (unreadable : machine.IsUnreadable part.kind value) :
    ∃ error, writeElement part place value machine = .error (.error (.memory error)) machine := by
  rcases characterCode_refused (unreadable.1 ▸ unreadable) with ⟨error, refused⟩
  refine ⟨error, ?_⟩
  rw [writeElement, unreadable.1]
  exact bind_error refused

end Reply

/-! ## The primitive -/

namespace Machine

variable {machine after : Machine} {part : IndexedPart} {place : Nat} {value : Value}
  {datum : Datum}

theorem Alike.withTop {first second : Machine} (alike : first.Alike second) (heap : Heap)
    (sp : Nat) : (first.withTop heap sp).Alike (second.withTop heap sp) := by
  have apart (machine : Machine) :
      (machine.withTop heap sp).withoutSend = machine.withoutSend.withTop heap sp := rfl
  rw [Alike, apart, apart, show first.withoutSend = second.withoutSend from alike]

/-- The heap after an element has been set and its value put in place of the operands. -/
def heapPut (machine : Machine) (part : IndexedPart) (place : Nat) (value : Value)
    (datum : Datum) : Heap :=
  (machine.heap.updateBody part.object (datum.put (part.fixed + place))).setField
    machine.registers.activeContext (machine.registers.sp - 2) value

end Machine

namespace Reply

open Run

variable {machine : Machine} {receiver index value : Value} {chars : Bool} {part : IndexedPart}
  {place : Nat} {datum : Datum}

/-- Up to the writing nothing is changed. -/
theorem setElementAt_reads (operands : machine.Operands [receiver, index, value])
    (found : machine.part? receiver chars = some part) :
    (place? index part.size = none → setElementAt chars 2 machine = .ok false machine) ∧
      ∀ place, place? index part.size = some place → setElementAt chars 2 machine = (do
        if !(← writeElement part place value) then return false
        if ← isCacheable receiver .atIndexPut then rememberPart part .write
        succeed 2 value) machine := by
  have onReceiver : machine.Operand 2 receiver := operands.operand (show 0 < 3 by decide)
  have onIndex : machine.Operand 1 index := operands.operand (show 1 < 3 by decide)
  have onValue : machine.Operand 0 value := operands.operand (show 2 < 3 by decide)
  have described : indexedPart receiver chars machine = .ok (some part) machine :=
    found ▸ indexedPart_apply (Machine.isDescribed_of_part? found)
  constructor
  · intro outside
    refine (bind_ok (receiverOf_ok onReceiver)).trans ((bind_ok described).trans
      ((bind_ok (argument_ok (by decide) onIndex)).trans ?_))
    rw [outside]
    rfl
  · intro place inside
    refine (bind_ok (receiverOf_ok onReceiver)).trans ((bind_ok described).trans
      ((bind_ok (argument_ok (by decide) onIndex)).trans ?_))
    rw [inside]
    exact bind_ok (argument_ok (by decide) onValue)

/-- Setting an element. -/
theorem setElementAt_puts (operands : machine.Operands [receiver, index, value])
    (found : machine.part? receiver chars = some part)
    (apart : receiver ≠ machine.registers.activeContext)
    (inside : place? index part.size = some place)
    (stands : machine.StandsFor part.kind value datum)
    (fetched : ∃ selector, machine.heap.fetch machine.registers.specials.specialSelectors
      (CommonMessage.atIndexPut.index * 2) = .ok selector) :
    ∃ after, setElementAt chars 2 machine = .ok true after ∧
      after.Alike (machine.withTop (machine.heapPut part place value datum)
        (machine.registers.sp - 2)) := by
  obtain rfl := Machine.object_of_part? found
  rcases Machine.part?_eq_some_iff.mp found with ⟨owner, format, here, described, isPart⟩
  have isOf := IndexedPart.isOf_of_ofBody? isPart
  let heap := machine.heap.updateBody part.object (datum.put (part.fixed + place))
  have written : writeElement part place value machine = .ok true (machine.withHeap heap) :=
    writeElement_puts here isOf (place?_eq_some_iff.mp inside).2 stands
  have later : heap.get? part.object
      = some { owner with body := datum.put (part.fixed + place) owner.body } :=
    (machine.heap.get?_update_same _ _).trans (by rw [here]; rfl)
  rcases (stands.overwrites machine.heap part.object _).exists_fetch fetched with
    ⟨selector, answered⟩
  rcases @remembering_apply (machine.withHeap heap) part _ Bool part.object selector .atIndexPut
    later answered .write (succeed 2 value) with ⟨last, alike, remembered⟩
  have depth : 3 ≤ machine.registers.sp := operands.depth
  have onReceiver : machine.Operand 2 part.object := operands.operand (show 0 < 3 by decide)
  rcases Heap.fetch_eq_ok_iff.mp onReceiver.2 with ⟨fields, readable, stack⟩
  have stored : last.heap.store last.registers.activeContext (last.registers.sp - 3 + 1) value
      = .ok (machine.heapPut part place value datum) := by
    rw [alike.heap, alike.activeContext, alike.sp]
    change heap.store machine.registers.activeContext (machine.registers.sp - 3 + 1) value = _
    rw [show machine.registers.sp - 3 + 1 = machine.registers.sp - 2 by omega]
    refine Heap.store_eq_ok_iff.mpr ⟨⟨fields, ?_, (Array.getElem?_eq_some_iff.mp stack).1⟩, rfl⟩
    rw [← readable]
    exact Heap.pointers_congr (machine.heap.get?_update_other apart _)
  refine ⟨_, ((setElementAt_reads operands found).2 place inside).trans ((bind_ok written).trans
    (remembered.trans (bind_ok (replace_apply stored)))), ?_⟩
  rw [alike.sp]
  change (last.withTop _ (machine.registers.sp - 3 + 1)).Alike _
  rw [show machine.registers.sp - 3 + 1 = machine.registers.sp - 2 by omega]
  exact alike.withTop _ _

end Reply

namespace Machine

variable {machine after : Machine} {receiver index other value content : Value} {chars : Bool}
  {part : IndexedPart} {place base : Nat} {datum : Datum}

/-- How an element that is set leaves a machine. Its value lies in place of the operands, and
of all other objects only the receiver has been written to, in the slot of the element. -/
structure Stores (machine : Machine) (part : IndexedPart) (place : Nat) (value : Value)
    (datum : Datum) (after : Machine) : Prop where
  alike : after.Alike (machine.withTop after.heap (machine.registers.sp - 2))
  answer : after.Operand 0 value
  stack : after.heap.get? machine.registers.activeContext
    = (machine.heap.setField machine.registers.activeContext (machine.registers.sp - 2) value).get?
      machine.registers.activeContext
  others : ∀ other, other ≠ part.object → other ≠ machine.registers.activeContext →
    after.heap.get? other = machine.heap.get? other
  body : ∃ owner body, machine.heap.get? part.object = some owner ∧
    after.heap.get? part.object = some { owner with body } ∧ owner.body.SameShape body ∧
    body.datum? (part.fixed + place) = some datum ∧
    ∀ slot, slot ≠ part.fixed + place → body.datum? slot = owner.body.datum? slot

/-! ## Asking -/

/-- The machine with a receiver and an index on its stack. -/
def posing (machine : Machine) (base : Nat) (receiver index : Value) : Machine :=
  { machine with
    heap := (machine.heap.setField machine.registers.activeContext base receiver).setField
      machine.registers.activeContext (base + 1) index
    registers := { machine.registers with sp := base + 1, argumentCount := 1 } }

theorem operands_posing (positive : 0 < base)
    (low : machine.heap.fetch machine.registers.activeContext base = .ok content)
    (high : machine.heap.fetch machine.registers.activeContext (base + 1) = .ok value) :
    (machine.posing base receiver index).Operands [receiver, index] := by
  rcases Heap.fetch_eq_ok_iff.mp low with ⟨fields, readable, inside⟩
  rcases Heap.fetch_eq_ok_iff.mp high with ⟨again, same, above⟩
  obtain rfl : fields = again := Except.ok.inj (readable.symm.trans same)
  have bounded := (Array.getElem?_eq_some_iff.mp above).1
  refine ⟨?_, fun place inside => ?_⟩
  · change 2 ≤ base + 1
    omega
  · match place, inside with
    | 0, _ =>
      change Heap.fetch _ machine.registers.activeContext (base + 1 - 2 + 1 + 0) = .ok receiver
      rw [show base + 1 - 2 + 1 + 0 = base by omega]
      exact (Heap.fetch_setField_other (.inr (by omega))).trans
        (Heap.fetch_setField_same readable (by omega) receiver)
    | 1, _ =>
      change Heap.fetch _ machine.registers.activeContext (base + 1 - 2 + 1 + 1) = .ok index
      rw [show base + 1 - 2 + 1 + 1 = base + 1 by omega]
      have readable : (machine.heap.setField machine.registers.activeContext base receiver).pointers
          machine.registers.activeContext = .ok (fields.setIfInBounds base receiver) := by
        rw [Heap.pointers_setField_same, readable]
        rfl
      exact Heap.fetch_setField_same readable (by simpa using bounded) index

theorem get?_posing (apart : other ≠ machine.registers.activeContext) :
    (machine.posing base receiver index).heap.get? other = machine.heap.get? other :=
  (Heap.get?_update_other _ apart.symm _).trans (Heap.get?_update_other _ apart.symm _)

theorem elementAt?_posing (apart : part.object ≠ machine.registers.activeContext) :
    (machine.posing base receiver index).elementAt? part other = machine.elementAt? part other := by
  rw [elementAt?, elementAt?, get?_posing apart]

/-- The part of an object does not depend on a stack, also if that belongs to its class. -/
theorem part?_posing (above : ContextField.frame ≤ base)
    (apart : receiver ≠ machine.registers.activeContext) :
    (machine.posing base receiver index).part? receiver chars = machine.part? receiver chars := by
  have low : base ≠ ClassField.format ∧ base + 1 ≠ ClassField.format := by
    simp only [ContextField.frame, ClassField.format] at above ⊢
    omega
  have described (species : Value) : (machine.posing base receiver index).heap.classFormat species
      = machine.heap.classFormat species := by
    have fetched : (machine.posing base receiver index).heap.fetch species ClassField.format
        = machine.heap.fetch species ClassField.format :=
      (Heap.fetch_setField_other (.inr low.2)).trans (Heap.fetch_setField_other (.inr low.1))
    rw [Heap.classFormat, Heap.classFormat, Heap.fetchInt, Heap.fetchInt, fetched]
  simp only [part?, get?_posing apart, described]

/-- Writing to a stack leaves an entry of an array in its place. -/
theorem fetch_posing {array : Value} {entry : Nat}
    (fetched : ∃ selector, machine.heap.fetch array entry = .ok selector) :
    ∃ selector, (machine.posing base receiver index).heap.fetch array entry = .ok selector := by
  exact (Heap.Overwrites.setField _ _ _).exists_fetch
    ((Heap.Overwrites.setField _ _ _).exists_fetch fetched)

/-- Asking a machine for an element. -/
theorem finds_posing (send : Reply.Sender) (above : ContextField.frame ≤ base)
    (low : machine.heap.fetch machine.registers.activeContext base = .ok content)
    (high : machine.heap.fetch machine.registers.activeContext (base + 1) = .ok value)
    (consistent : machine.heap.Consistent) (found : machine.part? receiver chars = some part)
    (apart : receiver ≠ machine.registers.activeContext)
    (fetched : ∃ selector, machine.heap.fetch machine.registers.specials.specialSelectors
      (CommonMessage.atIndex.index * 2) = .ok selector) :
    (Run.respond send (Access.read.number chars)).Finds (machine.posing base receiver index)
      part.kind (machine.elementAt? part index) := by
  have positive : 0 < base := lt_of_lt_of_le (by decide) above
  rcases fetch_posing fetched with ⟨selector, fetched⟩
  have finds := Run.respond_finds send (operands_posing positive low high) rfl
    (Heap.consistent_update (Heap.consistent_update consistent _ _) _ _)
    ((part?_posing above apart).trans found) fetched
  rwa [elementAt?_posing (object_of_part? found ▸ apart)] at finds

/-! ## Storing -/

section

variable {owner : HeapObject}

theorem get?_heapPut (apart : part.object ≠ machine.registers.activeContext)
    (here : machine.heap.get? part.object = some owner) :
    (machine.heapPut part place value datum).get? part.object
      = some { owner with body := datum.put (part.fixed + place) owner.body } := by
  refine (Heap.get?_update_other _ apart.symm _).trans ?_
  exact (machine.heap.get?_update_same _ _).trans (by rw [here]; rfl)

/-- The stack and the object are apart, so what is put on the one is not seen in the other. -/
theorem stores_of_put (operands : machine.Operands [receiver, index, value])
    (apart : part.object ≠ machine.registers.activeContext)
    (here : machine.heap.get? part.object = some owner) (isOf : part.IsOf owner.body)
    (inside : place < part.size) (holds : part.kind.Holds datum)
    (alike : after.Alike (machine.withTop (machine.heapPut part place value datum)
      (machine.registers.sp - 2))) :
    machine.Stores part place value datum after := by
  have heap : after.heap = machine.heapPut part place value datum := alike.heap
  have bounded := isOf.inside inside
  have onReceiver : machine.Operand 2 receiver := operands.operand (show 0 < 3 by decide)
  rcases Heap.fetch_eq_ok_iff.mp onReceiver.2 with ⟨fields, readable, stack⟩
  have unwritten {object : Value} (different : object ≠ part.object) :
      (machine.heap.updateBody part.object (datum.put (part.fixed + place))).get? object
        = machine.heap.get? object := machine.heap.get?_update_other different.symm _
  refine ⟨heap ▸ alike, ⟨Nat.zero_le _, ?_⟩, ?_, ?_, owner, _, here, ?_,
    datum.sameShape_put (part.fixed + place) owner.body, ?_, ?_⟩
  · rw [heap, alike.activeContext, alike.sp]
    refine Heap.fetch_setField_same ?_ (Array.getElem?_eq_some_iff.mp stack).1 value
    rw [← readable]
    exact Heap.pointers_congr (unwritten apart.symm)
  · rw [heap]
    exact Heap.get?_setField_congr (unwritten apart.symm) _ _ _
  · intro object different off
    rw [heap]
    exact (Heap.get?_update_other _ off.symm _).trans (unwritten different)
  · rw [heap]
    exact get?_heapPut apart here
  · rw [Datum.datum?_put isOf holds bounded, if_pos rfl]
  · intro slot different
    rw [Datum.datum?_put isOf holds bounded, if_neg different]

/-- The part stays what it was, unless the object is its own class. The stack may belong to the
class, but not its description. -/
theorem Stores.part? (stores : machine.Stores part place value datum after)
    (above : ContextField.frame ≤ machine.registers.sp - 2)
    (classed : ∀ owner, machine.heap.get? part.object = some owner → owner.species ≠ part.object)
    (found : machine.part? part.object chars = some part) :
    after.part? part.object chars = some part := by
  rcases part?_eq_some_iff.mp found with ⟨owner, format, here, described, isPart⟩
  rcases stores.body with ⟨same, body, there, later, shape, -, -⟩
  obtain rfl := Option.some.inj (here.symm.trans there)
  refine part?_eq_some_iff.mpr ⟨_, format, later, ?_, ?_⟩
  · have low : machine.registers.sp - 2 ≠ ClassField.format := by
      simp only [ContextField.frame, ClassField.format] at above ⊢
      omega
    have fetched : after.heap.fetch owner.species ClassField.format
        = machine.heap.fetch owner.species ClassField.format := by
      by_cases stack : owner.species = machine.registers.activeContext
      · rw [stack, Heap.fetch_congr stores.stack, Heap.fetch_setField_other (.inr low)]
      · exact Heap.fetch_congr (stores.others _ (classed owner here) stack) _
    rw [← described, Heap.classFormat, Heap.classFormat, Heap.fetchInt, Heap.fetchInt, fetched]
  · exact (IndexedPart.ofBody?_of_sameShape shape).trans isPart

/-- Only the element at the index is another one. -/
theorem Stores.elementAt? (stores : machine.Stores part place value datum after)
    (inside : Reply.place? index part.size = some place) (other : Value) :
    after.elementAt? part other
      = if other = index then some datum else machine.elementAt? part other := by
  rcases stores.body with ⟨owner, body, here, later, -, stored, kept⟩
  cases known : Reply.place? other part.size with
  | none =>
    have different : other ≠ index := by
      rintro rfl
      rw [inside] at known
      cases known
    rw [if_neg different, Machine.elementAt?, Machine.elementAt?, known]
    rfl
  | some spot =>
    simp only [Machine.elementAt?, known, Option.bind_some, here, later]
    by_cases same : other = index
    · subst same
      rw [inside] at known
      cases known
      rw [if_pos rfl, stored]
    · have apart : part.fixed + spot ≠ part.fixed + place := by
        intro equal
        obtain rfl : spot = place := by omega
        exact same (Reply.place?_inj inside known)
      rw [if_neg same, kept _ apart]

end

/-! ## Asking afterwards -/

/-- The index lies above the receiver, which is where the value goes. -/
theorem fetch_index (operands : machine.Operands [receiver, index, value]) :
    machine.heap.fetch machine.registers.activeContext (machine.registers.sp - 2 + 1) = .ok index := by
  have depth : 3 ≤ machine.registers.sp := operands.depth
  have high : machine.Operand 1 index := operands.operand (show 1 < 3 by decide)
  rw [show machine.registers.sp - 2 + 1 = machine.registers.sp - 1 by omega]
  exact high.2

/-- Asking for an element when one has been set. -/
theorem finds_after_put (send : Reply.Sender)
    (operands : machine.Operands [part.object, index, value])
    (above : ContextField.frame ≤ machine.registers.sp - 2) (consistent : machine.heap.Consistent)
    (found : machine.part? part.object chars = some part)
    (apart : part.object ≠ machine.registers.activeContext)
    (classed : ∀ owner, machine.heap.get? part.object = some owner → owner.species ≠ part.object)
    (inside : Reply.place? index part.size = some place)
    (stands : machine.StandsFor part.kind value datum)
    (entered : ∃ selector, machine.heap.fetch machine.registers.specials.specialSelectors
      (CommonMessage.atIndex.index * 2) = .ok selector)
    (alike : after.Alike (machine.withTop (machine.heapPut part place value datum)
      (machine.registers.sp - 2)))
    (stores : machine.Stores part place value datum after) (other : Value) :
    (Run.respond send (Access.read.number chars)).Finds
      (after.posing (machine.registers.sp - 2) part.object other) part.kind
      (if other = index then some datum else machine.elementAt? part other) := by
  have heap : after.heap = machine.heapPut part place value datum := alike.heap
  have context : after.registers.activeContext = machine.registers.activeContext :=
    alike.activeContext
  have stacked : after.heap.fetch after.registers.activeContext (machine.registers.sp - 2)
      = .ok value := by
    have answer := stores.answer.2
    rwa [show after.registers.sp = machine.registers.sp - 2 from alike.sp, Nat.sub_zero] at answer
  have kept : after.heap.fetch after.registers.activeContext (machine.registers.sp - 2 + 1)
      = .ok index := by
    rw [context, Heap.fetch_congr stores.stack, Heap.fetch_setField_other (.inr (by omega))]
    exact fetch_index operands
  have sound : after.heap.Consistent := by
    rw [heap]
    exact Heap.consistent_update (Heap.consistent_update consistent _ _) _ _
  have fetched : ∃ selector, after.heap.fetch after.registers.specials.specialSelectors
      (CommonMessage.atIndex.index * 2) = .ok selector := by
    rw [heap, show after.registers.specials = machine.registers.specials from alike.specials]
    exact (Heap.Overwrites.setField _ _ _).exists_fetch
      ((stands.overwrites machine.heap part.object _).exists_fetch entered)
  rw [← stores.elementAt? inside other]
  exact finds_posing send above stacked kept sound (stores.part? above classed found)
    (context ▸ apart) fetched

/-! ## The law -/

/-- A primitive that sets an element fails without an element at the index and for a value
that stands for none, with nothing changed, and stops for one that cannot be looked at.
Otherwise the element is set, and whatever is asked for afterwards is what was stored, or
what would have been answered before. -/
theorem put_then_get (send : Reply.Sender)
    (operands : machine.Operands [receiver, index, value])
    (count : machine.registers.argumentCount = 2)
    (above : ContextField.frame ≤ machine.registers.sp - 2)
    (consistent : machine.heap.Consistent) (found : machine.part? receiver chars = some part)
    (apart : receiver ≠ machine.registers.activeContext)
    (classed : ∀ owner, machine.heap.get? receiver = some owner → owner.species ≠ receiver)
    (selectors : ∀ access : Access, ∃ selector, machine.heap.fetch
      machine.registers.specials.specialSelectors (access.message.index * 2) = .ok selector) :
    ((∀ place < part.size, index.int? ≠ some ((place : Int) + 1)) →
      Run.respond send (Access.write.number chars) machine = .ok false machine) ∧
    ∀ place < part.size, index.int? = some ((place : Int) + 1) →
      (machine.IsUnreadable part.kind value → ∃ error,
        Run.respond send (Access.write.number chars) machine
          = .error (.error (.memory error)) machine) ∧
      (¬ machine.IsUnreadable part.kind value →
        (∀ datum, ¬ machine.StandsFor part.kind value datum) →
        Run.respond send (Access.write.number chars) machine = .ok false machine) ∧
      ∀ datum, machine.StandsFor part.kind value datum → ∃ after,
        Run.respond send (Access.write.number chars) machine = .ok true after ∧
        machine.Stores part place value datum after ∧
        ∀ other,
          (Run.respond send (Access.read.number chars)).Finds
            (machine.posing (machine.registers.sp - 2) receiver other) part.kind
            (machine.elementAt? part other) ∧
          (Run.respond send (Access.read.number chars)).Finds
            (after.posing (machine.registers.sp - 2) receiver other) part.kind
            (if other = index then some datum else machine.elementAt? part other) := by
  obtain rfl := object_of_part? found
  have responds := @Run.respond_apply machine _ _ send (Access.ofNumber?_number chars .write)
  simp only [Access.primitive, Primitive.run, count] at responds
  rcases Reply.setElementAt_reads operands found with ⟨outside, within⟩
  refine ⟨fun none => ?_, fun place bounded known => ?_⟩
  · refine responds.trans (Run.bind_ok (outside ?_))
    rw [Option.eq_none_iff_forall_ne_some]
    intro place inside
    exact none place (Reply.place?_eq_some_iff.mp inside).2 (Reply.place?_eq_some_iff.mp inside).1
  · have inside : Reply.place? index part.size = some place :=
      Reply.place?_eq_some_iff.mpr ⟨known, bounded⟩
    refine ⟨fun unreadable => ?_, fun readable unfit => ?_, fun datum stands => ?_⟩
    · rcases Reply.writeElement_stops unreadable with ⟨error, stopped⟩
      exact ⟨error, responds.trans
        (Run.bind_error ((within place inside).trans (Run.bind_error stopped)))⟩
    · exact responds.trans (Run.bind_ok ((within place inside).trans
        (Run.bind_ok (Reply.writeElement_refuses readable unfit))))
    · rcases Reply.setElementAt_puts operands found apart inside stands (selectors .write) with
        ⟨after, ended, alike⟩
      rcases part?_eq_some_iff.mp found with ⟨owner, format, here, described, isPart⟩
      have stores := stores_of_put operands apart here (IndexedPart.isOf_of_ofBody? isPart)
        bounded stands.holds alike
      have low : machine.Operand 2 part.object := operands.operand (show 0 < 3 by decide)
      refine ⟨after, responds.trans (Run.bind_ok ended), stores, fun other => ⟨?_, ?_⟩⟩
      · exact finds_posing send above low.2 (fetch_index operands) consistent found apart
          (selectors .read)
      · exact finds_after_put send operands above consistent found apart classed inside stands
          (selectors .read) alike stores other

/-- A machine that has been asked to set an element. There are an object with two words, a
string, a LargePositiveInteger, a Character, and one without a number. -/
def elementMachine (capacity : Nat) (selectors receiver index value : Value) : Machine :=
  let nil : Value := .object 0
  let machine := sampleMachine
    [sampleNode .zero #[],
      sampleNode .zero #[nil, nil, (ClassFormat.pack 0 Format.words).value],
      sampleNode .zero #[nil, nil, (ClassFormat.pack 0 Format.bytes).value],
      sampleNode .zero (Array.replicate 36 nil),
      { species := .object 1, format := Format.words, body := .words #[0, 0] },
      { species := .object 2, format := Format.bytes, body := .bytes #[65, 66] },
      sampleMethod 0 [] #[120],
      sampleNode .zero #[nil, nil, nil, .object 6, nil, .object 8, receiver, index, value],
      sampleNode .zero #[.object 1, .object 2, .object 3, .object 4, .object 5, .object 9,
        .object 10, .object 11],
      { species := nil, format := Format.bytes, body := .bytes #[255, 255, 255, 255] },
      sampleNode nil #[.ofInt 67], sampleNode nil #[]]
    capacity nil
  { machine with registers := { machine.registers with
      specials := { machine.registers.specials with specialSelectors := selectors }
      sp := 8
      argumentCount := 2 } }

theorem operands_elementMachine (capacity : Nat) (selectors receiver index value : Value) :
    (elementMachine capacity selectors receiver index value).Operands [receiver, index, value] := by
  refine ⟨Nat.le_of_ble_eq_true rfl, fun place inside => ?_⟩
  match place, inside with
  | 0, _ | 1, _ | 2, _ => rfl

/-- A large number is stored as a word, and what is read afterwards is the same number. -/
theorem put_then_get_elementMachine :
    let machine := elementMachine 13 (.object 3) (.object 4) (.ofInt 2) (.object 9)
    machine.Operands [.object 4, .ofInt 2, .object 9] ∧ machine.heap.Consistent ∧
      machine.part? (.object 4) false = some ⟨.object 4, .words, 0, 2⟩ ∧
      ∃ after, Run.respond (Run.sendToClass 0) 61 machine = .ok true after ∧
        machine.Stores ⟨.object 4, .words, 0, 2⟩ 1 (.object 9) (.word 4294967295) after ∧
        (Run.respond (Run.sendToClass 0) 60).Finds (after.posing 6 (.object 4) (.ofInt 2)) .words
          (some (.word 4294967295)) ∧
        (Run.respond (Run.sendToClass 0) 60).Finds (after.posing 6 (.object 4) (.ofInt 1)) .words
          (some (.word 0)) := by
  intro machine
  have operands : machine.Operands [.object 4, .ofInt 2, .object 9] :=
    operands_elementMachine 13 (.object 3) (.object 4) (.ofInt 2) (.object 9)
  have consistent : machine.heap.Consistent := by decide +kernel
  have found : machine.part? (.object 4) false = some ⟨.object 4, .words, 0, 2⟩ := by
    decide +kernel
  have stands : machine.StandsFor .words (.object 9) (.word 4294967295) :=
    .number (by decide +kernel)
  have classed (owner : HeapObject) (here : machine.heap.get? (.object 4) = some owner) :
      owner.species ≠ .object 4 := by
    obtain rfl : _ = owner := Option.some.inj here
    decide
  have selectors (access : Access) : ∃ selector, machine.heap.fetch
      machine.registers.specials.specialSelectors (access.message.index * 2) = .ok selector := by
    cases access <;> exact ⟨.object 0, by decide +kernel⟩
  rcases ((put_then_get (Run.sendToClass 0) operands rfl (by decide) consistent found (by decide)
    classed selectors).2 1 (by decide) rfl).2.2 _ stands with ⟨after, ended, stores, answers⟩
  exact ⟨operands, consistent, found, after, ended, stores, (answers (.ofInt 2)).2,
    (answers (.ofInt 1)).2⟩

/-- A Character without a number stops the machine. A large number is stored, but with a full
table it cannot be read. A Character is stored, but without a table of Characters it cannot be
read. Without the special selectors the machine stops after an element has been set. -/
theorem put_then_get_stops :
    ((elementMachine 13 (.object 3) (.object 5) (.ofInt 1) (.object 11)).part? (.object 5) true
        = some ⟨.object 5, .chars, 0, 2⟩ ∧
      (Run.respond (Run.sendToClass 0) 64).ended?
        (elementMachine 13 (.object 3) (.object 5) (.ofInt 1) (.object 11)) = none) ∧
    (∃ after, Run.respond (Run.sendToClass 0) 61
        (elementMachine 12 (.object 3) (.object 4) (.ofInt 2) (.object 9)) = .ok true after ∧
      (Run.respond (Run.sendToClass 0) 60).ended? (after.posing 6 (.object 4) (.ofInt 2))
        = none) ∧
    (∃ after, Run.respond (Run.sendToClass 0) 64
        (elementMachine 13 (.object 3) (.object 5) (.ofInt 1) (.object 10)) = .ok true after ∧
      (Run.respond (Run.sendToClass 0) 63).ended? (after.posing 6 (.object 5) (.ofInt 1))
        = none) ∧
    (Run.respond (Run.sendToClass 0) 61).ended?
        (elementMachine 13 (.object 0) (.object 4) (.ofInt 2) (.ofInt 7)) = none ∧
      (((Run.respond (Run.sendToClass 0) 61).left
        (elementMachine 13 (.object 0) (.object 4) (.ofInt 2) (.ofInt 7))).heap.get?
          (.object 4)).map HeapObject.body = some (.words #[0, 7]) := by
  have number : Run.respond (Run.sendToClass 0) 61
      (elementMachine 12 (.object 3) (.object 4) (.ofInt 2) (.object 9)) = .ok true
        ((Run.respond (Run.sendToClass 0) 61).left
          (elementMachine 12 (.object 3) (.object 4) (.ofInt 2) (.object 9))) :=
    Run.ended?_eq_some.mp (by decide +kernel)
  have character : Run.respond (Run.sendToClass 0) 64
      (elementMachine 13 (.object 3) (.object 5) (.ofInt 1) (.object 10)) = .ok true
        ((Run.respond (Run.sendToClass 0) 64).left
          (elementMachine 13 (.object 3) (.object 5) (.ofInt 1) (.object 10))) :=
    Run.ended?_eq_some.mp (by decide +kernel)
  exact ⟨⟨by decide +kernel, by decide +kernel⟩, ⟨_, number, by decide +kernel⟩,
    ⟨_, character, by decide +kernel⟩, by decide +kernel, by decide +kernel⟩

end Machine

end Smalltalk

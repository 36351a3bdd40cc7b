import Smalltalk.Proofs.Primitive.DirectSend

namespace Smalltalk

/-! What the slots of indexable objects hold, and how the indexable part of an object is
found. Values, words and bytes are kept apart, so that the same can be said of all kinds
of elements at once. -/

/-- What a slot of an indexable object holds. -/
inductive Datum where
  | value (content : Value)
  | word (content : UInt32)
  | byte (content : UInt8)
deriving DecidableEq

/-- What a slot of a body holds. Methods and floats have no slots that are reached by an
index. -/
def Body.datum? : Body → (slot : Nat) → Option Datum
  | .pointers fields, slot => fields[slot]?.map .value
  | .words data, slot => data[slot]?.map .word
  | .bytes data, slot => data[slot]?.map .byte
  | .method _ _, _ => none
  | .float _, _ => none

/-- The number of slots that are reached by an index. -/
def Body.slotCount : Body → Nat
  | .pointers fields => fields.size
  | .words data => data.size
  | .bytes data => data.size
  | .method _ _ => 0
  | .float _ => 0

theorem Body.exists_datum? (body : Body) {slot : Nat} (inside : slot < body.slotCount) :
    ∃ datum, body.datum? slot = some datum := by
  cases body <;> simp only [slotCount] at inside
  · exact ⟨_, by rw [datum?, Array.getElem?_eq_getElem inside, Option.map_some]⟩
  · exact ⟨_, by rw [datum?, Array.getElem?_eq_getElem inside, Option.map_some]⟩
  · exact ⟨_, by rw [datum?, Array.getElem?_eq_getElem inside, Option.map_some]⟩
  · omega
  · omega

/-- Whether something can be an element of a part of some kind. -/
inductive IndexedKind.Holds : IndexedKind → Datum → Prop
  | value (content : Value) : Holds .pointers (.value content)
  | word (content : UInt32) : Holds .words (.word content)
  | byte (content : UInt8) : Holds .bytes (.byte content)
  | char (content : UInt8) : Holds .chars (.byte content)

namespace IndexedPart

variable {object : Value} {format : ClassFormat} {chars : Bool} {body : Body} {part : IndexedPart}

/-- A part is that of a body of its kind. Its fixed fields and its elements are all there
is, if the body has its fixed fields. -/
inductive IsOf : IndexedPart → Body → Prop
  | pointers {object : Value} {fixed : Nat} {fields : Array Value} :
      IsOf ⟨object, .pointers, fixed, fields.size - fixed⟩ (.pointers fields)
  | words {object : Value} {data : Array UInt32} :
      IsOf ⟨object, .words, 0, data.size⟩ (.words data)
  | bytes {object : Value} {data : Array UInt8} :
      IsOf ⟨object, .bytes, 0, data.size⟩ (.bytes data)
  | chars {object : Value} {data : Array UInt8} :
      IsOf ⟨object, .chars, 0, data.size⟩ (.bytes data)

theorem isOf_of_ofBody? (found : ofBody? object format chars body = some part) :
    part.IsOf body := by
  simp only [ofBody?] at found
  split at found
  · cases body <;> cases chars <;> cases found <;> constructor
  · cases found

/-- A part takes its fixed fields from the format. -/
theorem fixed_of_ofBody? (found : ofBody? object format chars body = some part)
    {fields : Array Value} (pointers : body = .pointers fields) :
    part.fixed = format.fieldCount := by
  subst pointers
  simp only [ofBody?] at found
  split at found
  · cases chars <;> cases found
    rfl
  · cases found

/-- What kind of slots a body has is told by its part. -/
theorem IsOf.kinds (isOf : part.IsOf body) :
    match part.kind with
    | .pointers => ∃ fields, body = .pointers fields
    | .words => ∃ data, body = .words data
    | .bytes | .chars => ∃ data, body = .bytes data := by
  cases isOf <;> exact ⟨_, rfl⟩

theorem IsOf.holds (isOf : part.IsOf body) {slot : Nat} {datum : Datum}
    (held : body.datum? slot = some datum) : part.kind.Holds datum := by
  cases isOf <;>
    · rcases Option.map_eq_some_iff.mp held with ⟨content, -, rfl⟩
      constructor

/-- Every place of a part has a slot. -/
theorem IsOf.inside (isOf : part.IsOf body) {place : Nat} (inside : place < part.size) :
    part.fixed + place < body.slotCount := by
  cases isOf <;> simp only [Body.slotCount] at inside ⊢ <;> omega

/-- A part reaches as far as its body, if that has the fixed slots. -/
theorem IsOf.reach (isOf : part.IsOf body) (fixed : part.fixed ≤ body.slotCount) :
    part.fixed + part.size = body.slotCount := by
  cases isOf <;> simp only [Body.slotCount] at fixed ⊢ <;> omega

end IndexedPart

namespace Machine

variable {machine : Machine} {object : Value} {chars : Bool} {part : IndexedPart}

/-- The indexable part of an object, as its class describes it. -/
def part? (machine : Machine) (object : Value) (chars : Bool) : Option IndexedPart :=
  match machine.heap.get? object with
  | none => none
  | some owner =>
    match machine.heap.classFormat owner.species with
    | .error _ => none
    | .ok format => IndexedPart.ofBody? object format chars owner.body

/-- A value is a small integer, or an object whose class has a description. -/
def IsDescribed (machine : Machine) (value : Value) : Prop :=
  value.isSmall = true ∨ ∃ owner format, machine.heap.get? value = some owner ∧
    machine.heap.classFormat owner.species = .ok format

theorem part?_eq_some_iff : machine.part? object chars = some part ↔
    ∃ owner format, machine.heap.get? object = some owner ∧
      machine.heap.classFormat owner.species = .ok format ∧
      IndexedPart.ofBody? object format chars owner.body = some part := by
  rw [part?]
  cases machine.heap.get? object with
  | none => simp
  | some owner => cases found : machine.heap.classFormat owner.species <;> simp [found]

/-- An object with a part is described. -/
theorem isDescribed_of_part? (found : machine.part? object chars = some part) :
    machine.IsDescribed object := by
  rcases part?_eq_some_iff.mp found with ⟨owner, format, here, described, -⟩
  exact .inr ⟨owner, format, here, described⟩

/-- A part is that of the object for which it was found. -/
theorem object_of_part? (found : machine.part? object chars = some part) :
    part.object = object := by
  rcases part?_eq_some_iff.mp found with ⟨_, _, -, -, same⟩
  exact (IndexedPart.of_ofBody? same).1

end Machine

theorem Run.object_ok {machine : Machine} {value : Value} {owner : HeapObject}
    (here : machine.heap.get? value = some owner) :
    Run.object value machine = .ok owner machine :=
  readHeap_ok (Heap.object_eq_ok_iff.mpr here)

namespace Reply

open Run

variable {machine : Machine} {value : Value} {chars : Bool}

/-- Of a value that is described the primitives find the part. -/
theorem indexedPart_apply (described : machine.IsDescribed value) :
    indexedPart value chars machine = .ok (machine.part? value chars) machine := by
  rcases described with small | ⟨owner, format, here, described⟩
  · have none : machine.part? value chars = none := by
      cases value with
      | small n => rfl
      | object slot => cases small
    rw [indexedPart, small, none]
    rfl
  · have isObject : value.isSmall = false := by
      cases value with
      | small n => cases here
      | object slot => rfl
    have known : machine.part? value chars
        = IndexedPart.ofBody? value format chars owner.body := by
      simp only [Machine.part?, here, described]
    rw [indexedPart, isObject, known]
    unfold IndexedPart.ofBody?
    refine (bind_ok (classOf_object here)).trans ((bind_ok (readHeap_ok described)).trans ?_)
    cases format.isIndexable with
    | false => rfl
    | true =>
      refine (bind_ok (object_ok here)).trans ?_
      cases owner.body <;> cases chars <;> rfl

/-- Of a value that is not described they do not find out whether it has one. -/
theorem indexedPart_refused (undescribed : ¬ machine.IsDescribed value) :
    ∃ error, indexedPart value chars machine = .error (.error (.memory error)) machine := by
  cases value with
  | small n => exact absurd (.inl rfl) undescribed
  | object slot =>
    cases here : machine.heap.get? (.object slot) with
    | none =>
      have lost : machine.heap.object (.object slot)
          = .error (.invalidReference (.object slot)) := by
        rw [Heap.object, here]
      exact ⟨_, bind_error (bind_error (readHeap_error lost))⟩
    | some owner =>
      cases described : machine.heap.classFormat owner.species with
      | ok format => exact absurd (.inr ⟨owner, format, here, described⟩) undescribed
      | error error =>
        exact ⟨error, (bind_ok (classOf_object here)).trans (bind_error (readHeap_error described))⟩

theorem receiverOf_ok {count : Nat} (operand : machine.Operand count value) :
    receiverOf count machine = .ok value machine :=
  operand_eq_ok operand

theorem argument_ok {count index : Nat} (inside : index < count)
    (operand : machine.Operand (count - 1 - index) value) :
    argument count index machine = .ok value machine := by
  rw [argument, if_pos inside]
  exact operand_eq_ok operand

end Reply

end Smalltalk
